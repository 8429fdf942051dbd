import Mathlib.Data.Finset.Card
import Mathlib.Data.List.Sublists
import ModuleLoader.Proofs.Address.Directories
import ModuleLoader.Proofs.Loader.Fates

/-! # Loads from tables of files

An address below a directory holds the name that it is the address of. So only finitely many names
have their texts in a table, and loads can come to units of no others.
-/

namespace ModuleLoader

open Text

/-- All that can be made of the characters of an address by leaving some out. -/
def FileTable.parts (t : FileTable) : Finset String :=
  (t.files.entries.flatMap fun e => e.1.toList.sublists.map String.ofList).toFinset

theorem FileTable.mem_parts {t : FileTable} {address text name : String}
    (h : t.fetch address = .ok text) (hn : name.toList <:+: address.toList) : name ∈ t.parts := by
  rw [fetch] at h
  split at h
  · rename_i stored hs
    rw [parts, List.mem_toFinset, List.mem_flatMap]
    refine ⟨(address, stored), (t.files.mem_entries_iff _ _).2 hs, ?_⟩
    rw [List.mem_map]
    exact ⟨name.toList, List.mem_sublists.2 hn.sublist, String.ofList_toList⟩
  · simp at h

theorem Stages.prepare_standard {extension name : String} {compiler : Option Compiler}
    {metadata : Metadata} {load : Load} {source : SourceText}
    (h : (standard extension compiler).prepare (.start name .module metadata) = .ok (load, source)) :
    ∃ address, Address.locate extension metadata.baseUrl name = .ok address ∧
      source = .stored address := by
  simp only [prepare, Load.start, standard, locateOnce, fetchStored, bind_eq_ok_iff, pure,
    Except.pure, Except.ok.injEq, Prod.mk.injEq] at h
  obtain ⟨located, ⟨address, ha, rfl⟩, source', hs, -, rfl⟩ := h
  simp only [Except.ok.injEq] at hs
  exact ⟨address, ha, hs.symm⟩

namespace Loader

/-- All loads, those to come with some metadata as well, have names from a finite set if they end
well. -/
structure Limited (l : Loader) (metadata : Metadata) (names : Finset String) : Prop where
  loads : ∀ {id u}, l.fate id = some (.ok u) → u.name ∈ names
  fresh : ∀ {n id u}, l.outcome id (.created n metadata) = .ok u → u.name ∈ names

variable {l : Loader} {metadata : Metadata} {names : Finset String}

theorem Limited.move (h : l.Limited metadata names) (id : Nat) :
    (l.move id).2.Limited metadata names := by
  constructor
  · intro i u hu
    rw [fate_move] at hu
    exact h.loads hu
  · intro n i u hu
    rw [(move_grows l id).alike.outcome] at hu
    exact h.fresh hu

theorem Limited.join (h : l.Limited metadata names) (name : String) :
    (l.join name metadata).2.Limited metadata names := by
  have ha := (join_grows l name metadata).alike
  constructor
  · intro i u hu
    rcases Nat.lt_or_ge i l.loads.length with hi | hi
    · rw [fate_congr ha (join_loads l name metadata hi)] at hu
      exact h.loads hu
    · rw [fate, Option.map_eq_some_iff] at hu
      obtain ⟨st, hst, hu⟩ := hu
      rw [ha.outcome] at hu
      rw [Loader.join] at hst
      split at hst
      · simp [Nat.not_lt.2 hi] at hst
      · rcases getElem?_concat_eq_some_iff.1 hst with hst | ⟨-, rfl⟩
        · simp [Nat.not_lt.2 hi] at hst
        · exact h.fresh hu
  · intro n i u hu
    rw [ha.outcome] at hu
    exact h.fresh hu

/-! ## Loads from a table -/

variable {extension : String} {compiler : Option Compiler} {t : FileTable}
  {latency : Nat}

/-- A module that is loaded from a table has its text there. -/
theorem outcome_ofTable (hs : l.stages = .standard extension compiler)
    (hf : l.files = .ofTable t latency) {id : Nat} {name : String} {u : LoadedUnit}
    (h : l.outcome id (.created name metadata) = .ok u) :
    ∃ address text, Address.locate extension metadata.baseUrl name = .ok address ∧
      t.fetch address = .ok text := by
  simp only [outcome, hs] at h
  split at h
  · simp at h
  · rename_i hp
    obtain ⟨address, -, hsource⟩ := Stages.prepare_standard hp
    simp at hsource
  · rename_i load address hp
    obtain ⟨address', ha, hsource⟩ := Stages.prepare_standard hp
    obtain rfl := SourceText.stored.inj hsource
    rw [answered, hf] at h
    split at h
    · simp at h
    · rename_i text ht
      exact ⟨address, text, ha, ht⟩

/-- Loads from a table, with the loads that are there already, come to units of finitely many
names. -/
theorem exists_limited (hs : l.stages = .standard extension compiler)
    (hf : l.files = .ofTable t latency) (hb : isAbsoluteUrl metadata.baseUrl.toList = false) :
    ∃ names, l.Limited metadata names := by
  let known := (List.range l.loads.length).filterMap fun id =>
    (l.fate id).bind fun r => r.toOption.map (·.name)
  refine ⟨known.toFinset ∪ t.parts, ?_, ?_⟩
  · intro id u hu
    have hlt : id < l.loads.length := by
      obtain ⟨st, hst, -⟩ := Option.map_eq_some_iff.1 hu
      exact (List.getElem?_eq_some_iff.1 hst).1
    refine Finset.mem_union_left _ (List.mem_toFinset.2 ?_)
    exact List.mem_filterMap.2 ⟨id, List.mem_range.2 hlt, by simp [hu, Except.toOption]⟩
  · intro n id u hu
    obtain ⟨address, text, ha, ht⟩ := outcome_ofTable hs hf hu
    have hn : LoadState.Serves id n (.created n metadata) := rfl
    rw [(outcome_ok hn hu).1]
    exact Finset.mem_union_right _ (FileTable.mem_parts ht (Address.infix_of_locate hb ha))

end Loader

end ModuleLoader

import ModuleLoader.Proofs.Loader.Detachment
import ModuleLoader.Proofs.Session.Redefinitions

/-! # Modules apart

A module that is run apart from the registry does the same as the definition of its source under a
name that nothing requests, as long as nothing requests the name either that the loader makes up for
it. A package map can lead to that name; then the module cannot load what the map leads to.
-/

namespace ModuleLoader

namespace Loader

/-- The name that the loader makes up holds a blank, so no specifier stands for itself by it. -/
theorem freshName_ne {l : Loader} {name : String} {referrer : Option String}
    (h : l.nameOf name referrer = .ok name) : l.freshName.1 ≠ name := by
  intro he
  have hmem : ' ' ∈ name.toList := by
    rw [← he]
    simp [freshName]
  have hlegal := Specifier.not_illegal_of_normalize h hmem
  revert hlegal
  decide

end Loader

namespace Session

open Loader Dialect

variable {budget : Nat} {l : Loader}

/-- The two requests begin alike, and go on alike. -/
theorem turns_matches {y : String} {request request' : Request}
    (h : Matches y (l.start request) (l.start request')) (delay k : Nat) :
    (∃ n, turns budget k (.delayed delay request, l) = (.delayed n request, l) ∧
      turns budget k (.delayed delay request', l) = (.delayed n request', l)) ∨
    Matches y (turns budget k (.delayed delay request, l))
      (turns budget k (.delayed delay request', l)) := by
  induction k with
  | zero => exact Or.inl ⟨delay, rfl, rfl⟩
  | succ k ih =>
    rw [Nat.add_comm, turns_add, turns_add]
    rcases ih with ⟨n, hn, hn'⟩ | hm
    · rw [hn, hn']
      cases n with
      | zero => exact Or.inr (h.advance budget)
      | succ n => exact Or.inl ⟨n, rfl, rfl⟩
    · exact Or.inr (hm.turn budget)

/-- From a quiet state a module and the definition of its source in register mode, under a free name
that nothing requests, take equally many turns and agree in the end, if nothing requests the name
either that is made up for the module. -/
theorem module_agrees_with_definition {s : Session} (hs : s.Reached budget) (hq : s.Quiet)
    (hstages : s.loader.Standard) (hmap : s.loader.map.Global) {fresh source : String}
    {options : RequestOptions} (hname : s.loader.nameOf fresh options.referrer = .ok fresh)
    (hfree : s.loader.registry.has fresh = false)
    (hmode : options.mode.getD s.loader.options.mode = .register)
    (hkinds : ∀ specifier ∈ requestsOf source, Specifier.kindOf specifier.toList ≠ .relative)
    (hfresh : s.loader.Unrequested fresh ∧ ¬ s.loader.Requests source fresh)
    (hmade : s.loader.Unrequested s.loader.freshName.1 ∧
      ¬ s.loader.Requests source s.loader.freshName.1) (delay k : Nat) :
    ∃ a l a' m,
      (s.move (budget + 1) (.request delay ⟨.module source, options⟩)).play (budget + 1)
        (.replicate k (.turn s.activities.length)) = ⟨l, s.activities ++ [a]⟩ ∧
      (s.move (budget + 1) (.request delay ⟨.define fresh source, options⟩)).play (budget + 1)
        (.replicate k (.turn s.activities.length)) = ⟨m, s.activities ++ [a']⟩ ∧
      a'.isSettled = a.isSettled ∧ (a.isSettled = true → Agrees fresh a a' l m) := by
  have hnone : s.loader.registry.get? fresh = none := has_eq_false_iff.1 hfree
  have hclaim : (s.loader.registry.has fresh || s.loader.defining.contains fresh) = false := by
    rw [hfree, hs.defining hq]
    rfl
  have hdefine : s.loader.start ⟨.define fresh source, options⟩ =
      startInline { s.loader with defining := fresh :: s.loader.defining }
        (.define fresh options.mode) fresh source (some fresh) options := by
    simp only [Loader.start, startDefine, hname, hclaim, Bool.false_eq_true, if_false]
  have hstart : Matches fresh (s.loader.start ⟨.module source, options⟩)
      (s.loader.start ⟨.define fresh source, options⟩) := by
    rw [hdefine]
    exact startInline_matches hs.sound.loader hstages hmap hkinds hmade hfresh (freshName_ne hname)
      hnone hmode _ _ _ _
  refine ⟨_, _, _, _, play_request (budget + 1) k s delay _, play_request (budget + 1) k s delay _,
    ?_⟩
  rcases turns_matches hstart delay k with ⟨n, hn, hn'⟩ | hm
  · rw [hn, hn']
    exact ⟨rfl, fun h => by simp [Activity.isSettled] at h⟩
  · exact hm.isSettled

end Session

/-! ## Loaders whose files are a table -/

namespace Loader

open Dialect

/-- A text makes no relative requests, and none of a name. -/
def Ignores (l : Loader) (text name : String) : Prop :=
  ∀ specifier ∈ requestsOf text, Specifier.kindOf specifier.toList ≠ .relative ∧
    (l.nameOf specifier none).toOption ≠ some name

instance (l : Loader) (text name : String) : Decidable (l.Ignores text name) :=
  inferInstanceAs (Decidable (∀ specifier ∈ requestsOf text, _))

/-- The dependencies of the unit that a load has come to. -/
def dependenciesOf : LoadState → List Dependency
  | .finished (.ok u) => u.dependencies
  | _ => []

/-- No record, no unit and no text of a table requests a name. -/
def Clear (l : Loader) (t : FileTable) (name : String) : Prop :=
  (∀ e ∈ l.registry.records.entries, ∀ d ∈ e.2.dependencies, d.name ≠ name) ∧
    (∀ st ∈ l.loads, ∀ d ∈ dependenciesOf st, d.name ≠ name) ∧
    ∀ e ∈ t.files.entries, l.Ignores e.2 name

instance (l : Loader) (t : FileTable) (name : String) : Decidable (l.Clear t name) :=
  inferInstanceAs (Decidable (_ ∧ _ ∧ _))

variable {l : Loader} {name text : String}

theorem Ignores.not_requests (h : l.Ignores text name) (hm : l.map.Global) :
    ¬ l.Requests text name := by
  rintro ⟨specifier, hs, referrer, hn⟩
  obtain ⟨hk, hne⟩ := h specifier hs
  rw [nameOf, Specifier.normalize_of_not_relative hk hm _ referrer none] at hn
  exact hne (toOption_eq_some_iff.2 hn)

theorem Clear.unrequested {t : FileTable} (h : l.Clear t name) (hm : l.map.Global) {latency : Nat}
    (hf : l.files = .ofTable t latency) : l.Unrequested name := by
  obtain ⟨hrecords, hunits, hfiles⟩ := h
  constructor
  · intro n record hg
    exact hrecords (n, record) ((l.registry.records.mem_entries_iff _ _).2 hg)
  · intro u hu
    exact hunits _ (List.mem_of_getElem? hu)
  · intro address text ht
    rw [hf] at ht
    simp only [Files.ofTable, FileTable.fetch] at ht
    split at ht
    · rename_i stored hs
      cases ht
      exact (hfiles (address, _) ((t.files.mem_entries_iff _ _).2 hs)).not_requests hm
    · cases ht

end Loader

namespace Session

open Loader Dialect

/-- A request that is made in a session and takes some turns. -/
def making (s : Session) (request : Request) (k : Nat) : Session :=
  (s.move 9 (.request 0 request)).play 9 (.replicate k (.turn s.activities.length))

/-- The file of a module. -/
def usingFiles : List (String × String) :=
  [("b.js", "import {p} from 'a';\nexport var q = p + 1;")]

/-- A session in which the module that it needs was set. -/
def prepared : Session :=
  (start (ofFiles 1 usingFiles)).play 9 [.set "a" ⟨7, .ofList [("p", .string "v")]⟩]

theorem prepared_reached : prepared.Reached 8 :=
  ⟨_, _, _, _, _, _, _, build_ofFiles 1 _, rfl⟩

/-- A source that needs the file. -/
def neededSource : String := "import {q} from 'b';\nexport var w = q;"

/-- No file of a session requests a name, no module and not this source. -/
def Leaves (s : Session) (t : FileTable) (source name : String) : Prop :=
  s.loader.Clear t name ∧ s.loader.Ignores source name

instance (s : Session) (t : FileTable) (source name : String) :
    Decidable (s.Leaves t source name) :=
  inferInstanceAs (Decidable (_ ∧ _))

theorem Leaves.unrequested {s : Session} {t : FileTable} {source name : String}
    (h : s.Leaves t source name) (hm : s.loader.map.Global) {latency : Nat}
    (hf : s.loader.files = .ofTable t latency) :
    s.loader.Unrequested name ∧ ¬ s.loader.Requests source name :=
  ⟨h.1.unrequested hm hf, h.2.not_requests hm⟩

theorem global_of_isEmpty {m : PackageMap} (h : m.entries.entries = []) : m.Global := by
  intro context rules hg
  have he := (m.entries.mem_entries_iff _ _).2 hg
  rw [h] at he
  cases he

theorem module_agrees_with_definition_needed : ∃ a l a' m,
    prepared.making ⟨.module neededSource, .none⟩ 3 = ⟨l, prepared.activities ++ [a]⟩ ∧
    prepared.making ⟨.define "c" neededSource, .none⟩ 3 = ⟨m, prepared.activities ++ [a']⟩ ∧
    a.exportText? "w" = some "v1" ∧ Agrees "c" a a' l m := by
  have hmap : prepared.loader.map.Global := global_of_isEmpty (by decide +kernel)
  have hname : prepared.loader.nameOf "c" RequestOptions.none.referrer = .ok "c" := by
    rw [← toOption_eq_some_iff]
    decide +kernel
  have hfiles : prepared.loader.files = .ofTable (.ofList usingFiles) 1 := rfl
  have hfresh : prepared.Leaves (.ofList usingFiles) neededSource "c" := by decide +kernel
  have hmade : prepared.Leaves (.ofList usingFiles) neededSource prepared.loader.freshName.1 := by
    decide +kernel
  obtain ⟨a, l, a', m, hl, hm, hsettled, hagree⟩ :=
    module_agrees_with_definition prepared_reached (by decide +kernel)
      ⟨".js", some Dialect.compile, rfl, Or.inr rfl⟩ hmap hname (by decide +kernel)
      (by decide +kernel) (by decide +kernel) (hfresh.unrequested hmap hfiles)
      (hmade.unrequested hmap hfiles) 0 3
  have hw : ((prepared.making ⟨.module neededSource, .none⟩ 3).activities[0]?.bind fun a =>
      a.exportText? "w") = some "v1" := by
    decide +kernel
  have ha : (prepared.making ⟨.module neededSource, .none⟩ 3).activities[0]? = some a := by
    rw [making, hl]
    rfl
  rw [ha] at hw
  refine ⟨a, l, a', m, hl, hm, hw, hagree ?_⟩
  cases a <;> first | rfl | simp [Activity.exportText?] at hw

/-! ## A map to the name that is made up -/

/-- The file of a module that is named as the loader names the modules that it runs apart. -/
def oddlyNamedFiles : List (String × String) := [("<anonymous 1>.js", "export var v = 1;")]

/-- A map that leads to it. -/
def oddMap : PackageMap := PackageMap.empty.insert "x" "<anonymous 1>"

/-- A loader with that map. -/
def misled : Loader :=
  { ofFiles 0 oddlyNamedFiles with
    options := { Options.default with map := oddMap }
    map := oddMap }

theorem build_misled : Loader.build { Options.default with map := oddMap }
    (.standard ".js" (some Dialect.compile)) (.ofTable (.ofList oddlyNamedFiles) 0) (.keeping [])
    .empty = .ok misled :=
  rfl

theorem oddMap_global : oddMap.Global := by
  intro context rules h
  have he := (oddMap.entries.mem_entries_iff _ _).2 h
  have hall : oddMap.entries.entries = [("x", .target "<anonymous 1>")] := rfl
  rw [hall] at he
  simp at he

theorem misled_nameOf : misled.nameOf "fresh" RequestOptions.none.referrer = .ok "fresh" := by
  rw [← toOption_eq_some_iff]
  decide +kernel

/-- A source that requests what the map leads to. -/
def misledSource : String := "import {v} from 'x';\nexport var w = v;"

theorem misled_unrequested :
    misled.Unrequested "fresh" ∧ ¬ misled.Requests misledSource "fresh" := by
  have hleaves : (start misled).Leaves (.ofList oddlyNamedFiles) misledSource "fresh" := by
    decide +kernel
  exact hleaves.unrequested oddMap_global rfl

/-- The module cannot load what the map leads to, but its definition can. -/
theorem made_up_name_collides :
    (start misled).Reached 8 ∧ (start misled).Quiet ∧ misled.Standard ∧ misled.map.Global ∧
      (∀ e ∈ misled.registry.records.entries, ∀ d ∈ e.2.dependencies,
        misled.registry.has d.name = true) ∧
      misled.nameOf "fresh" RequestOptions.none.referrer = .ok "fresh" ∧
      misled.registry.has "fresh" = false ∧ misled.options.mode = .register ∧
      (misled.Unrequested "fresh" ∧ ¬ misled.Requests misledSource "fresh") ∧
      (∀ specifier ∈ requestsOf misledSource,
        Specifier.kindOf specifier.toList ≠ .relative) ∧
      ((start misled).making ⟨.module misledSource, .none⟩ 3).messageAt? 0 =
        some "InstantiateError: <anonymous 1>: dependency '<anonymous 1>' is not loaded" ∧
      (((start misled).making ⟨.define "fresh" misledSource, .none⟩ 3).loader.get
        "fresh").1.toOption.join.map (fun ns => (ns.exports.get? "w").map Value.text) =
          some (some "1") := by
  refine ⟨⟨_, _, _, _, _, _, [], build_misled, rfl⟩, by simp [Quiet, start],
    ⟨_, _, rfl, Or.inr rfl⟩, oddMap_global, by decide +kernel, misled_nameOf, by decide +kernel,
    rfl, misled_unrequested, ?_⟩
  decide +kernel

end Session

end ModuleLoader

import ModuleLoader.Proofs.Loader.Confluence
import ModuleLoader.Proofs.Session.SharedImports

/-! # The order of imports

Imports of a graph of local modules lead to the same modules with the same exports, whenever they
are made and in whatever order they take their turns.
-/

namespace ModuleLoader

open Loader Dialect Relation Plan

/-! ## Sessions of imports -/

/-- A move imports a module with some options, or is a turn of an import. -/
def Move.Imports (options : RequestOptions) : Move → Prop
  | .request _ ⟨.importModule _, given⟩ => given = options
  | .turn _ => True
  | _ => False

namespace Session

section Importing

variable {p : Plan} {E : Realm → (String → Option Namespace) → Prop} {l : Loader}
  {options : RequestOptions} {names : List String} {s : Session}

/-- Imports of names that a loader began go by a plan. -/
structure Importing (p : Plan) (E : Realm → (String → Option Namespace) → Prop) (l : Loader)
    (names : List String) (s : Session) : Prop where
  planned : s.Planned p E names
  prospers : Prospers l s.loader

theorem Planned.prospers (h : s.Planned p E names) (hE : p.Safe E)
    (hac : ∀ n, ¬ TransGen p.Dep n n) (budget i : Nat) :
    Prospers s.loader (s.takeTurn (budget + 1) i).loader := by
  by_cases hset : s.Settled i
  · rw [takeTurn_settled hset]
    exact .refl _
  · simp only [Settled, not_forall, Bool.not_eq_true] at hset
    obtain ⟨a, ha, hns⟩ := hset
    obtain ⟨hi, -⟩ := List.getElem?_eq_some_iff.1 ha
    obtain ⟨n, hn⟩ : ∃ n, names[i]? = some n := ⟨_, List.getElem?_eq_getElem (h.length ▸ hi)⟩
    obtain ⟨loaded, fetched, ran, hsteady⟩ := h.steady
    rw [takeTurn_eq ha]
    exact ((h.answers hn ha).turn hsteady hE hac budget hns).2.1

theorem Importing.takeTurn (h : Importing p E l names s) (hE : p.Safe E)
    (hac : ∀ n, ¬ TransGen p.Dep n n) (budget i : Nat) :
    Importing p E l names (s.takeTurn (budget + 1) i) :=
  ⟨(h.planned.takeTurn hE hac budget i).1, h.prospers.trans (h.planned.prospers hE hac budget i)⟩

/-- Another import may be made at any time. -/
theorem Importing.request (h : Importing p E l names s) (hp : p.metadata = l.metadataOf options)
    {specifier name : String} (hname : l.nameOf specifier options.referrer = .ok name)
    (hn : l.registry.has name = true ∨ name ∈ p.names) (budget turns : Nat) :
    Importing p E l (names ++ [name])
      (s.move budget (.request turns ⟨.importModule specifier, options⟩)) := by
  obtain ⟨⟨⟨loaded, fetched, ran, hsteady⟩, hlength, hprovided, hanswers⟩, hprospers⟩ := h
  have hn' : s.loader.registry.has name = true ∨ name ∈ p.names := hn.imp_left hprospers.has
  refine ⟨⟨⟨loaded, fetched, ran, hsteady⟩, ?_, ?_, ?_⟩, hprospers⟩
  · simp [move, hlength]
  · intro n hm
    rcases List.mem_append.1 hm with hm | hm
    · exact hprovided n hm
    · exact List.mem_singleton.1 hm ▸ hn'
  · intro i n a hi ha
    rcases Nat.lt_or_ge i names.length with hlt | hge
    · rw [List.getElem?_append_left hlt] at hi
      rw [move, List.getElem?_append_left (hlength ▸ hlt)] at ha
      exact hanswers hi ha
    · rw [List.getElem?_append_right hge] at hi
      rw [move, List.getElem?_append_right (hlength ▸ hge), hlength] at ha
      obtain ⟨hzero, rfl⟩ : i - names.length = 0 ∧ name = n := by
        simpa [List.getElem?_singleton] using hi
      rw [hzero, List.getElem?_cons_zero, Option.some.injEq] at ha
      subst ha
      apply answers_delayed hsteady hn' rfl
      · rw [hprospers.alike.nameOf, hname]
      · rw [hp, metadataOf, metadataOf, hprospers.alike.options]

end Importing

/-! ## The end of imports -/

section Ends

variable {l : Loader} {metadata : Metadata} {g : ModuleGraph l metadata} {roots : List String}
  {s : Session}

/-- When all imports are settled, what was registered first and what is wanted is registered, and
all of it is evaluated. -/
theorem Importing.ends (h : Importing (g.plan roots) (Execution l g.names g.unit) l roots s)
    (hl : l.Fresh) (hg : ∀ n ∈ g.names, g.Wanted roots n) (hq : s.Quiet) :
    Execution l g.names g.unit s.loader.world.realm s.loader.registry.known ∧
      (∀ {n record}, s.loader.registry.get? n = some record →
        ∃ ns, record.slot = .evaluated ns) ∧
      ∀ n, s.loader.registry.has n = true ↔ l.registry.has n = true ∨ n ∈ g.names := by
  obtain ⟨loaded, fetched, ran, hsteady⟩ := h.planned.steady
  have hstate := hsteady.running.state
  refine ⟨hstate, hsteady.evaluated, fun n => ⟨fun hn => ?_, ?_⟩⟩
  · rw [← Registry.known_ne_none_iff hsteady.evaluated] at hn
    obtain ⟨ns, hns⟩ := Option.ne_none_iff_exists'.1 hn
    refine (hstate.known_or_mem hns).imp_left fun hstart => ?_
    rw [← Registry.known_ne_none_iff hl.evaluated, hstart]
    simp
  · rintro (hn | hn)
    · exact h.prospers.has hn
    · rw [← Registry.known_ne_none_iff hsteady.evaluated]
      obtain ⟨r, hr, hp⟩ := ModuleGraph.plan_path (hg n hn)
      refine hsteady.running.known_of_path ?_ hp
      obtain ⟨i, hi, hri⟩ := List.getElem_of_mem hr
      have hlt : i < s.activities.length := h.planned.length ▸ hi
      have hroot : roots[i]? = some r := List.getElem?_eq_some_iff.2 ⟨hi, hri⟩
      have ha := List.getElem?_eq_getElem hlt
      have hset := hq _ (List.getElem_mem hlt)
      rcases h.planned.answers hroot ha with ⟨_, -, hgo⟩ | ⟨ns, -, hk⟩
      · generalize s.activities[i] = a at hset hgo
        rcases hgo with hgo | hgo <;> cases a <;>
          first | exact hgo.elim | simp [Activity.isSettled] at hset
      · simp [hk]

end Ends

section Orders

variable {options : Options} {extension : String} {compiler : Option Compiler} {files : Files}
  {reporter : Reporter} {realm : Realm} {l : Loader} {ropts : RequestOptions}
  {g : ModuleGraph l (l.metadataOf ropts)} {name : String → String} {moves : List Move}

end Orders

end Session

end ModuleLoader

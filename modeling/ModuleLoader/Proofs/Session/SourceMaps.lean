import ModuleLoader.Proofs.Loader.MappedSteps
import ModuleLoader.Proofs.Session.Histories

/-! # Source maps of registered modules

The index has the map of the last module that was compiled under a name, which need not be the one
that is registered: a load that comes too late to be registered leaves its map behind.
-/

namespace ModuleLoader

open Loader Relation

/-! ## Records and their units -/

/-- The last unit that was filed under a name is that of a load. -/
def FiledLast (journal : List Event) (n : String) (id : Nat) : Prop :=
  ∃ newer older, journal = newer ++ .filed n id :: older ∧ ∀ id', .filed n id' ∉ newer

theorem FiledLast.append {journal : List Event} {n : String} {id : Nat}
    (h : FiledLast journal n id) (events : List Event) (he : ∀ id', .filed n id' ∉ events) :
    FiledLast (events ++ journal) n id := by
  obtain ⟨newer, older, rfl, hn⟩ := h
  refine ⟨events ++ newer, older, by rw [List.append_assoc], fun id' hm => ?_⟩
  rcases List.mem_append.1 hm with hm | hm
  · exact he id' hm
  · exact hn id' hm

/-- The record of a name was filed for a unit, and waits with its body unless that has run. -/
structure FiledFor (journal : List Event) (n : String) (record : Record Body) (u : LoadedUnit) :
    Prop where
  name : u.name = n
  filed : FiledLast journal n u.body.load
  body : ∀ body, record.body? = some body → body = u.body

/-- Every record but that of the host was filed for a unit. -/
def Books.Sourced (linked : LoadedUnit → Prop) (b : Books) : Prop :=
  ∀ n record, b.registry.get? n = some record →
    n = hostName ∨ ∃ u, linked u ∧ FiledFor b.journal n record u

section Sourced

variable {linked : LoadedUnit → Prop} {b b' : Books} {units : List LoadedUnit}

/-- Records may go, and bodies run, as long as nothing is filed. -/
theorem Books.Sourced.keeps (h : b.Sourced linked) (events : List Event)
    (hr : ∀ n record', b'.registry.get? n = some record' →
      ∃ record, b.registry.get? n = some record ∧
        ∀ body, record'.body? = some body → record.body? = some body)
    (hj : b'.journal = events ++ b.journal)
    (he : ∀ n id, .filed n id ∉ events) : b'.Sourced linked := by
  intro n record' hg
  obtain ⟨record, hg', hb⟩ := hr n record' hg
  refine (h n record hg').imp_right ?_
  rintro ⟨u, hu, hf⟩
  refine ⟨u, hu, hf.name, ?_, fun body hb' => hf.body body (hb body hb')⟩
  rw [hj]
  exact hf.filed.append events (he n)

theorem Books.Sourced.files (h : b.Sourced linked) {u : LoadedUnit} (hu : linked u)
    (hfree : b.registry.get? u.name = none) : Books.Sourced linked
      ⟨b.registry.commit u.name u.record, .filed u.name u.body.load :: b.journal⟩ := by
  intro n record hg
  by_cases hn : n = u.name
  · subst hn
    rw [Registry.get?_commit_self hfree, Option.some.injEq] at hg
    subst hg
    refine Or.inr ⟨u, hu, rfl, ⟨[], b.journal, rfl, by simp⟩, fun body hb => ?_⟩
    exact (Option.some.inj hb).symm
  · rw [Registry.get?_commit_ne hn] at hg
    refine (h n record hg).imp_right ?_
    rintro ⟨v, hv, hf⟩
    refine ⟨v, hv, hf.name, hf.filed.append [_] fun id hm => hn ?_, hf.body⟩
    cases List.mem_singleton.1 hm
    rfl

theorem Books.Sourced.deed (h : b.Sourced linked) (hu : ∀ u ∈ units, linked u)
    (hd : Deed units b b') : b'.Sourced linked := by
  have hdelete (m n : String) (record : Record Body)
      (hg : (b.registry.delete m).get? n = some record) :
      ∃ record', b.registry.get? n = some record' ∧
        ∀ body, record.body? = some body → record'.body? = some body := by
    rw [Registry.get?_delete] at hg
    split at hg
    · cases hg
    · exact ⟨record, hg, fun _ => id⟩
  cases hd with
  | @loads e he =>
    refine h.keeps [e] (fun n record hg => ⟨record, hg, fun _ => id⟩) rfl ?_
    intro n id hm
    cases List.mem_singleton.1 hm
    exact he
  | files hm hfree => exact h.files (hu _ hm) hfree
  | @runs m body ns hb =>
    refine h.keeps [_] (fun n record hg => ?_) rfl (by simp)
    rw [Registry.get?_setSlot] at hg
    split at hg
    · rename_i hn
      obtain ⟨record', hg', rfl⟩ := Option.map_eq_some_iff.1 hg
      exact ⟨record', hn ▸ hg', fun body hb => by simp [Record.body?] at hb⟩
    · exact ⟨record, hg, fun _ => id⟩
  | @fails m => exact h.keeps [_] (hdelete m) rfl (by simp)
  | @drops m => exact h.keeps [] (hdelete m) rfl (by simp)

theorem Books.Sourced.deeds (h : b.Sourced linked) (hu : ∀ u ∈ units, linked u)
    (hd : ReflTransGen (Deed units) b b') : b'.Sourced linked := by
  induction hd with
  | refl => exact h
  | tail _ hd ih => exact ih.deed hu hd

theorem Books.Sourced.does (h : b.Sourced linked) (hu : ∀ u ∈ units, linked u)
    {detached : LoadedUnit → Prop} (hd : Does units detached b b') : b'.Sourced linked := by
  obtain ⟨m, hm, rfl | ⟨u, ok, -, rfl⟩⟩ := hd
  · exact h.deeds hu hm
  · exact (h.deeds hu hm).keeps [_] (fun n record hg => ⟨record, hg, fun _ => id⟩) rfl
      (by simp)

theorem Books.Sourced.mono {linked' : LoadedUnit → Prop} (h : b.Sourced linked)
    (hl : ∀ {u}, linked u → linked' u) : b.Sourced linked' := by
  intro n record hg
  refine (h n record hg).imp_right ?_
  rintro ⟨u, hu, hf⟩
  exact ⟨u, hl hu, hf⟩

end Sourced

/-! ## Logs of compilations -/

/-- A move that neither sets nor removes a record, nor turns source maps off. -/
def Move.KeepsMaps : Move → Prop
  | .set _ _ => False
  | .delete _ => False
  | .configure options _ => options.sourceMaps = true
  | _ => True

theorem Move.KeepsMaps.keeps {m : Move} (h : m.KeepsMaps) : m.Keeps := by
  cases m <;> first | exact h | trivial

/-- The source text of a load that was compiled. -/
def textOf? (log : List Compilation) (id : Nat) : Option String :=
  (log.find? fun c => c.id = id).bind (·.load.source)

/-- The source text that was compiled last under a name. -/
def lastText? (log : List Compilation) (n : String) : Option String :=
  (log.find? fun c => c.load.name = n).bind (·.load.source)

namespace Session

/-- A session goes on from a loader, and this is what was compiled on the way, the latest first. -/
inductive Logs (l : Loader) : Session → List Compilation → Prop where
  | start : Logs l (start l) []
  | step {s : Session} {log : List Compilation} {i : Nat} {a a' : Activity} {l' : Loader} :
      Logs l s log → s.activities[i]? = some a → Advance (a, s.loader) (a', l') →
      Logs l ⟨l', s.activities.set i a'⟩ ((s.loader.compilation? l' a).toList ++ log)
  | move {s : Session} {log : List Compilation} {budget : Nat} {m : Move} :
      Logs l s log → m.KeepsMaps → (∀ i, m ≠ .turn i) → Logs l (s.move (budget + 1) m) log

/-- What a log of compilations tells about a session: which maps the index has, and which source
texts units were linked from. -/
structure Logged (s : Session) (log : List Compilation) : Prop where
  regular : s.Regular
  maps : s.loader.Maps
  activities : ∀ a ∈ s.activities, a.Maps
  sourced : s.loader.books.Sourced s.loader.Arrived
  completed : ∀ c ∈ log, ∃ text, c.load.CompletedFrom text
  entries : ∀ n, s.loader.sourceMaps.get? n .module =
    (log.find? fun c => c.load.name = n).bind (·.load.entry?)
  arrived : ∀ {u : LoadedUnit}, s.loader.Arrived u → (∃ c ∈ log, c.load.name = u.name) ∧
    ∃ text, textOf? log u.body.load = some text ∧ u.LinkedFrom text

variable {l : Loader} {s : Session} {log : List Compilation}

/-! ## Steps -/

section Step

variable {l' : Loader} {c : Option Compilation}

/-- The index has the map of what was compiled last. -/
theorem Logged.entries_compiles (h : s.Logged log) (hc : Compiles s.loader l' c) (n : String) :
    l'.sourceMaps.get? n .module =
      ((c.toList ++ log).find? fun c => c.load.name = n).bind (·.load.entry?) := by
  rw [hc.entries]
  cases c with
  | none => exact h.entries n
  | some c =>
    obtain ⟨text, hfrom⟩ := hc.completed c rfl
    rw [Option.map_some, SourceMap.Index.get?_keep hfrom, Option.toList_some,
      List.singleton_append, List.find?_cons]
    by_cases hn : c.load.name = n
    · simp [hn]
    · simp [hn, h.entries]

/-- A unit that has arrived was linked from a source text that was compiled. -/
theorem Logged.arrived_compiles (h : s.Logged log) (hc : Compiles s.loader l' c)
    {u : LoadedUnit} (hu : l'.Arrived u) : (∃ c' ∈ c.toList ++ log, c'.load.name = u.name) ∧
      ∃ text, textOf? (c.toList ++ log) u.body.load = some text ∧ u.LinkedFrom text := by
  rcases hc.arrived hu with hold | ⟨c', text, rfl, hid, hname, hfrom, hlinked⟩
  · obtain ⟨⟨c', hmem, hname⟩, text, htext, hlinked⟩ := h.arrived hold
    refine ⟨⟨c', List.mem_append_right _ hmem, hname⟩, text, ?_, hlinked⟩
    cases c with
    | none => exact htext
    | some c =>
      have hne : c.id ≠ u.body.load := by
        intro he
        have hfin := hc.fresh c rfl
        rw [he, isFinished_eq_false_iff] at hfin
        exact hfin _ hold
      rw [textOf?, Option.toList_some, List.singleton_append, List.find?_cons]
      simpa [hne, textOf?] using htext
  · refine ⟨⟨c', List.mem_cons_self, hname⟩, text, ?_, hlinked⟩
    rw [textOf?, Option.toList_some, List.singleton_append, List.find?_cons]
    simp [hid, hfrom.source]

end Step

theorem Logged.step (h : s.Logged log) {i : Nat} {a a' : Activity} {l' : Loader}
    (ha : s.activities[i]? = some a) (hadv : Advance (a, s.loader) (a', l')) :
    Logged ⟨l', s.activities.set i a'⟩ ((s.loader.compilation? l' a).toList ++ log) := by
  have hmem := List.mem_of_getElem? ha
  have hsound := h.regular.sound.activities a hmem
  have hnext : Next s ⟨l', s.activities.set i a'⟩ := .step ha hadv
  have hregular := h.regular.next hnext
  have hevolves := hnext.evolves h.regular.sound
  obtain ⟨hc, ha'⟩ := advance_compiles hadv h.maps (h.activities a hmem) hsound
  refine ⟨hregular, hc.maps, ?_, ?_, ?_, h.entries_compiles hc,
    h.arrived_compiles hc⟩
  · intro b hb
    rcases List.mem_or_eq_of_mem_set hb with hb | rfl
    · exact h.activities b hb
    · exact ha'
  · exact (h.sourced.mono hevolves.arrived).does
      (fun u hu => hevolves.arrived (hsound.units u hu)) (h.regular.does hmem hadv)
  · intro c hm
    rcases List.mem_append.1 hm with hm | hm
    · exact hc.completed c (Option.mem_toList.1 hm)
    · exact h.completed c hm

theorem Logged.move (h : s.Logged log) {budget : Nat} {m : Move} (hm : m.KeepsMaps)
    (ht : ∀ i, m ≠ .turn i) : (s.move (budget + 1) m).Logged log := by
  have hr := move_releases (budget + 1) s ht
  have harrived {u : LoadedUnit} :
      (s.move (budget + 1) m).loader.Arrived u ↔ s.loader.Arrived u := by
    rw [Arrived, hr.loads]
    exact Iff.rfl
  have hactivities : ∀ a ∈ (s.move (budget + 1) m).activities, a.Maps := by
    intro a ha
    rcases mem_activities_move ht ha with ha | ha
    · exact h.activities a ha
    · cases a with
      | delayed => trivial
      | _ => exact ha.elim
  have hframe : (s.move (budget + 1) m).loader.Maps ∧
      (s.move (budget + 1) m).loader.sourceMaps = s.loader.sourceMaps := by
    cases m with
    | turn i => exact absurd rfl (ht i)
    | set | delete => exact hm.elim
    | request | files => exact ⟨⟨h.maps.options, h.maps.stages, h.maps.loads⟩, rfl⟩
    | configure options map => exact ⟨⟨hm, h.maps.stages, h.maps.loads⟩, rfl⟩
    | get name =>
      simp only [Session.move, Loader.get]
      split
      · cases ((s.loader.evaluate name).1.map some) <;>
          exact ⟨⟨h.maps.options, h.maps.stages, h.maps.loads⟩, rfl⟩
      · exact ⟨h.maps, rfl⟩
  refine ⟨h.regular.move hm.keeps ht budget, hframe.1, hactivities, ?_, h.completed, ?_, ?_⟩
  · exact (h.sourced.mono harrived.2).deeds (by simp)
      (move_deeds hm.keeps ht (budget + 1) h.regular.resting)
  · rw [hframe.2]
    exact h.entries
  · exact fun hu => h.arrived (harrived.1 hu)

/-! ## Courses of a session -/

section Start

variable {extension : String} {options : Options} {files : Files} {reporter : Reporter}
  {realm : Realm}
  (hl : Loader.build options (.standard extension (some Dialect.compile)) files reporter realm =
    .ok l) (hmaps : options.sourceMaps = true)

include hl hmaps

theorem logged_start : (start l).Logged [] := by
  have hregular := regular_start hl
  simp only [build, bind_eq_ok_iff, pure, Except.pure, Except.ok.injEq] at hl
  obtain ⟨checked, hcheck, rfl⟩ := hl
  have hchecked : checked.sourceMaps = true := by
    unfold Options.check at hcheck
    split_ifs at hcheck
    cases hcheck
    exact hmaps
  refine ⟨hregular, ⟨hchecked, ⟨extension, rfl⟩, by simp [start]⟩, by simp [start], ?_, by simp,
    fun _ => ?_, ?_⟩
  · intro n record hg
    simp only [start, books, Registry.get?_setEvaluated, Registry.get?_empty] at hg
    split at hg
    · rename_i hn
      exact Or.inl hn
    · cases hg
  · rfl
  · intro u hu
    simp [Arrived, start] at hu

theorem Logs.logged (h : Logs l s log) : s.Logged log := by
  induction h with
  | start => exact logged_start hl hmaps
  | step _ ha hadv ih => exact ih.step ha hadv
  | move _ hm ht ih => exact ih.move hm ht

/-- Under every name but that of the host the index has a map of the text that was compiled last
under it. The unit that is registered was linked from a text that was compiled, too. So the map
holds the text that the body of the record was linked from if and only if nothing was compiled from
another text under the name since then, be it for a load that failed or came too late. -/
theorem source_map_matches_iff (h : Logs l s log) {n : String}
    (hn : s.loader.registry.has n = true) (hhost : n ≠ hostName) :
    ∃ record u entry text, s.loader.registry.get? n = some record ∧ s.loader.Arrived u ∧
      FiledFor s.loader.world.journal n record u ∧ u.LinkedFrom text ∧
      textOf? log u.body.load = some text ∧ s.loader.sourceMaps.get? n .module = some entry ∧
      (entry.map.contentOf? entry.url = some text ↔ lastText? log n = some text) := by
  have hlogged := h.logged hl hmaps
  rw [Registry.has_eq_isSome, Option.isSome_iff_exists] at hn
  obtain ⟨record, hrecord⟩ := hn
  obtain ⟨u, harrived, hfiled⟩ := (hlogged.sourced n record hrecord).resolve_left hhost
  obtain ⟨⟨c, hc, hname⟩, text, htext, hlinked⟩ := hlogged.arrived harrived
  have hlast : (log.find? fun c => c.load.name = n).isSome := by
    rw [List.find?_isSome]
    exact ⟨c, hc, by simpa [hfiled.name] using hname⟩
  obtain ⟨last, hlast⟩ := Option.isSome_iff_exists.1 hlast
  obtain ⟨text', hfrom⟩ := hlogged.completed last (List.mem_of_find?_eq_some hlast)
  obtain ⟨entry, hentry, -, -, hcontent⟩ := hfrom.entry
  refine ⟨record, u, entry, text, hrecord, harrived, hfiled, hlinked, htext, ?_, ?_⟩
  · rw [hlogged.entries, hlast]
    exact hentry
  · rw [hcontent, lastText?, hlast, Option.bind_some, hfrom.source]

end Start


/-! ## Runs -/

theorem Logs.steps {i : Nat} {a : Activity} {c : Activity × Loader} (h : Logs l s log)
    (ha : s.activities[i]? = some a) (hsteps : ReflTransGen Advance (a, s.loader) c) :
    ∃ log', Logs l ⟨c.2, s.activities.set i c.1⟩ log' := by
  obtain ⟨hi, rfl⟩ := List.getElem?_eq_some_iff.1 ha
  induction hsteps with
  | refl => exact ⟨log, by rwa [List.set_getElem_self]⟩
  | @tail c d _ hd ih =>
    obtain ⟨log', h'⟩ := ih
    have hc : (s.activities.set i c.1)[i]? = some c.1 := List.getElem?_set_self hi
    have hs := h'.step hc hd
    rw [List.set_set] at hs
    exact ⟨_, hs⟩

/-- Every run has a log of its compilations. -/
theorem exists_logs (l : Loader) (budget : Nat) {moves : List Move}
    (hm : ∀ m ∈ moves, m.KeepsMaps) (k : Nat) :
    ∃ log, Logs l (run budget l moves k) log := by
  induction k with
  | zero => exact ⟨[], .start⟩
  | succ k ih =>
    obtain ⟨log, h⟩ := ih
    cases hk : moves[k]? with
    | none =>
      rw [run_stays budget moves l hk]
      exact ⟨log, h⟩
    | some m =>
      rw [run_succ budget moves l hk]
      by_cases ht : ∃ i, m = .turn i
      · obtain ⟨i, rfl⟩ := ht
        cases ha : (run budget l moves k).activities[i]? with
        | none =>
          rw [Session.move, takeTurn_none ha]
          exact ⟨log, h⟩
        | some a =>
          rw [Session.move, takeTurn_eq ha]
          exact h.steps ha (turn_steps budget _ a)
      · exact ⟨log, h.move (hm m (List.mem_of_getElem? hk)) fun i hi => ht ⟨i, hi⟩⟩

/-! ## A load that is overtaken -/

/-- A loader that makes source maps, and files that answer after some turns. -/
def ofMappedFiles (latency : Nat) (files : List (String × String)) : Loader :=
  { ofFiles latency files with options := { Options.default with sourceMaps := true } }

theorem build_ofMappedFiles (latency : Nat) (files : List (String × String)) :
    Loader.build { Options.default with sourceMaps := true }
      (.standard ".js" (some Dialect.compile)) (.ofTable (.ofList files) latency) (.keeping [])
      .empty = .ok (ofMappedFiles latency files) :=
  rfl

/-- The file of a module. -/
def overtakenFiles : List (String × String) := [("n.js", "export var w = 2;")]

/-- An import of that module, and its definition while the files are asked. -/
def overtakenMoves : List Move :=
  [.request 0 ⟨.importModule "n", .none⟩, .request 0 ⟨.define "n" "export var w = 1;", .none⟩,
    .turn 0, .turn 1, .turn 0]

theorem overtakenMoves_keepsMaps : ∀ m ∈ overtakenMoves, m.KeepsMaps := by
  simp [overtakenMoves, Move.KeepsMaps]

theorem source_map_matches_iff_overtaken : ∃ log,
    Logs (ofMappedFiles 1 overtakenFiles)
      (run 8 (ofMappedFiles 1 overtakenFiles) overtakenMoves 5) log ∧
    ∃ record u entry text,
      (run 8 (ofMappedFiles 1 overtakenFiles) overtakenMoves 5).loader.registry.get? "n" =
        some record ∧
      (run 8 (ofMappedFiles 1 overtakenFiles) overtakenMoves 5).loader.Arrived u ∧
      FiledFor (run 8 (ofMappedFiles 1 overtakenFiles) overtakenMoves 5).loader.world.journal "n"
        record u ∧
      u.LinkedFrom text ∧ textOf? log u.body.load = some text ∧
      (run 8 (ofMappedFiles 1 overtakenFiles) overtakenMoves 5).loader.sourceMaps.get? "n"
        .module = some entry ∧
      (entry.map.contentOf? entry.url = some text ↔ lastText? log "n" = some text) := by
  obtain ⟨log, h⟩ := exists_logs (ofMappedFiles 1 overtakenFiles) 8 overtakenMoves_keepsMaps 5
  exact ⟨log, h, source_map_matches_iff (build_ofMappedFiles 1 overtakenFiles) rfl h
    (by decide +kernel) (by decide)⟩

/-- The definition is registered and answers the import, but the map is that of the file. -/
theorem late_load_overwrites_map :
    (run 8 (ofMappedFiles 1 overtakenFiles) overtakenMoves 5).Quiet ∧
      (run 8 (ofMappedFiles 1 overtakenFiles) overtakenMoves 5).loader.reporter.failed = false ∧
      ((run 8 (ofMappedFiles 1 overtakenFiles) overtakenMoves 5).activities[0]?.bind fun a =>
        a.exportText? "w") = some "1" ∧
      ((run 8 (ofMappedFiles 1 overtakenFiles) overtakenMoves 5).loader.sourceMaps.get? "n"
        .module).bind (fun entry => entry.map.contentOf? entry.url) = some "export var w = 2;" := by
  decide +kernel

end Session

end ModuleLoader

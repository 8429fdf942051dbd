import ModuleLoader.Proofs.Dialect.FirstTokens
import ModuleLoader.Proofs.Dialect.Lines
import ModuleLoader.Proofs.Dialect.Transparency
import ModuleLoader.Proofs.SourceMap.Mappings

/-! # Origins of compiled lines

Compiled code has one line for each statement of its source. The source map leads each of these
lines to the first character of the first token of the statement, and no other line anywhere.
-/

namespace ModuleLoader.Dialect

open Text

/-- A unit is compiled as its program is written, with a position for each statement. -/
theorem compile_eq (source : String) (options : CompileOptions) :
    compile source options = (unitOf source options).map fun p =>
      ⟨String.ofList p.print, if options.sourceMap then
        some (.ofLines options.name options.url source
          ((p.body.map fun s => Position.ofOffset source.toList s.start).map some))
        else none⟩ := by
  rw [compile, unitOf]
  cases options.kind with
  | script =>
    cases scriptOf options.name source with
    | error e => rfl
    | ok p =>
      simp only [List.map_map]
      rfl
  | module =>
    cases programOf options.name source with
    | error e => rfl
    | ok p =>
      simp only [List.map_map]
      rfl

theorem ofSource_of_unitOf {source : String} {options : CompileOptions} {p : Program}
    (h : unitOf source options = .ok p) : Program.ofSource source.toList = .ok p := by
  rw [unitOf] at h
  split at h
  · exact programOf_eq_ok (scriptOf_eq_ok h).1
  · exact programOf_eq_ok h

/-! ## Positions -/

theorem length_le_byteLength (cs : List Char) : cs.length ≤ byteLength cs := by
  induction cs with
  | nil => exact Nat.le_refl 0
  | cons c cs ih =>
    have hc := c.utf8Size_pos
    rw [List.length_cons, byteLength_cons]
    omega

theorem length_lastLine_le (cs : List Char) : (Position.lastLine cs).length ≤ cs.length := by
  have h := (List.takeWhile_prefix (l := cs.reverse) (· ≠ '\n')).length_le
  rw [List.length_reverse] at h
  rw [Position.lastLine, List.length_reverse]
  exact h

theorem byteLength_takeBytes_le (n : ℕ) (cs : List Char) :
    byteLength (takeBytes n cs) ≤ byteLength cs := by
  conv_rhs => rw [← takeBytes_append_dropBytes n cs, byteLength_append]
  exact Nat.le_add_right _ _

/-- Positions in a text that fits into an address space can be written. -/
theorem writable_ofOffset {source : List Char} (h : byteLength source < 2 ^ 62) (offset : ℕ) :
    (SourceMap.placeOf (Position.ofOffset source offset)).Writable := by
  have hbytes := (length_le_byteLength (takeBytes offset source)).trans
    (byteLength_takeBytes_le offset source)
  have hlast := length_lastLine_le (takeBytes offset source)
  have hcount := List.count_le_length (a := '\n') (l := takeBytes offset source)
  constructor <;> simp only [SourceMap.placeOf, Position.ofOffset, SourceMap.Small] <;> omega

/-! ## Origins -/

/-- The lines of compiled code are the statements of the source, each on one line. The source map
holds the source text, leads the line of each statement to the line and column of the first
character of its first token, and leads no other line anywhere. Numbers in a map are words, so the
origins are stated for texts below any address space. -/
theorem compiled_lines_lead_to_first_tokens {source : String} {options : CompileOptions}
    {compiled : Compiled} (h : compile source options = .ok compiled)
    (hmap : options.sourceMap = true) :
    ∃ l m, Laid ⟨tokens source.toList, 0, byteLength source.toList⟩ l ∧
      unitOf source options = .ok ⟨l.map Prod.snd⟩ ∧
      compiled.code.toList = l.flatMap (fun e => e.2.kind.print ++ ['\n']) ∧
      (∀ e ∈ l, '\n' ∉ e.2.kind.print) ∧
      compiled.sourceMap = some m ∧
      m.contentOf? options.url = some source ∧
      (∀ n, n = 0 ∨ l.length < n → m.originOf? n = none) ∧
      (byteLength source.toList < 2 ^ 62 → ∀ i t s, l[i]? = some (t, s) →
        ∃ before first after, t.Stands source.toList before first after ∧
          m.originOf? (i + 1) = some ⟨options.url, before.count '\n' + 1,
            (Position.lastLine before).length + 1⟩) := by
  rw [compile_eq] at h
  cases hu : unitOf source options with
  | error e =>
    rw [hu] at h
    cases h
  | ok p =>
    rw [hu, Except.map, Except.ok.injEq, if_pos hmap] at h
    subst h
    have hp := ofSource_of_unitOf hu
    obtain ⟨l, hl, hbody⟩ := ofSource_laid hp
    obtain ⟨body⟩ := p
    simp only at hbody
    subst hbody
    refine ⟨l, _, hl, rfl, ?_, ?_, rfl, SourceMap.contentOf?_ofLines .., ?_, ?_⟩
    · rw [String.toList_ofList, Program.print, List.flatMap_map]
    · exact fun e he => StatementKind.oneLine_print
        (parsed_ofSource hp e.2 (List.mem_map_of_mem he)).1
    · exact fun n hn => SourceMap.originOf?_ofLines_eq_none _ _ _ (by simpa using hn)
    · intro hsize i t s hi
      have hmem := List.mem_of_getElem? hi
      obtain ⟨before, first, after, hstands⟩ := tokens_stand _ t (hl.mem _ hmem)
      refine ⟨before, first, after, hstands, ?_⟩
      have hwritable : ∀ q ∈ (l.map Prod.snd).map fun s => Position.ofOffset source.toList s.start,
          (SourceMap.placeOf q).Writable :=
        List.forall_mem_map.2 fun s _ => writable_ofOffset hsize s.start
      have hposition : ((l.map Prod.snd).map fun s => Position.ofOffset source.toList s.start)[i]? =
          some (Position.ofOffset source.toList t.start) := by
        rw [List.getElem?_map, List.getElem?_map, hi, Option.map_some, Option.map_some,
          hl.start _ hmem]
      rw [SourceMap.originOf?_ofLines _ _ _ hwritable hposition, hstands.ofOffset]

/-- Two statements on a line, a letter of two bytes in the first, and one more on the next line. -/
def accentedSource : String :=
  String.ofList ['\'', 'é', '\'', ';', ' ', 'x', '\n', ';', 'y']

theorem compiled_lines_lead_to_first_tokens_accented :
    ∃ compiled m, compile accentedSource ⟨.script, true, "unit", "unit.js"⟩ = .ok compiled ∧
      compiled.sourceMap = some m ∧ m.contentOf? "unit.js" = some accentedSource ∧
      m.originOf? 0 = none ∧ m.originOf? 4 = none ∧
      ∃ before first after, accentedSource.toList = before ++ first :: after ∧
        m.originOf? 2 = some ⟨"unit.js", before.count '\n' + 1,
          (Position.lastLine before).length + 1⟩ := by
  have hthree : (unitOf accentedSource ⟨.script, true, "unit", "unit.js"⟩).toOption.map
      (·.body.length) = some 3 := by decide +kernel
  cases hu : unitOf accentedSource ⟨.script, true, "unit", "unit.js"⟩ with
  | error e =>
    rw [hu] at hthree
    cases hthree
  | ok p =>
    have hc := compile_eq accentedSource ⟨.script, true, "unit", "unit.js"⟩
    rw [hu, Except.map] at hc
    obtain ⟨l, m, -, hl, -, -, hm, hcontent, hnone, horigin⟩ :=
      compiled_lines_lead_to_first_tokens hc rfl
    rw [hl, Except.toOption, Option.map_some, Option.some.injEq, List.length_map] at hthree
    obtain ⟨before, first, after, hstands, ho⟩ := horigin (by decide +kernel) 1 l[1].1 l[1].2
      (List.getElem?_eq_getElem (by omega))
    exact ⟨_, m, hc, hm, hcontent, hnone 0 (.inl rfl), hnone 4 (.inr (by omega)), before, first,
      after, hstands.source, ho⟩

example : ((compile accentedSource ⟨.script, true, "unit", "unit.js"⟩).toOption.bind
    Compiled.sourceMap).bind (·.originOf? 2) = some ⟨"unit.js", 1, 6⟩ := by
  decide +kernel

end ModuleLoader.Dialect

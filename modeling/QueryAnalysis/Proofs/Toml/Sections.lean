import Mathlib.Data.List.Nodup
import QueryAnalysis.Proofs.Toml.Values

/-!
# Documents of sections

A section has a name and settings, which give values to names; a document is sections with an empty
line between them (`documentText`). `parse?_documentText` is the contract of the reader on such
documents: every section is a table with exactly its settings.

The text is first cut into lines. Each line is read off whatever comes after it
(`statements?_line`), and the induction over the lines gives the statements of a document
(`statements?_lines`). Carrying the statements out, a header puts an empty table at the end
(`step?_table`) and an assignment puts a setting at the end of the last table (`step?_assign`);
these are the two inductions of `foldlM_settings` and `foldlM_sections`.
-/

namespace QueryAnalysis.Toml

variable {rest : List Char}

/-! ### Keys -/

/-- Whether a name needs no quotes as a key. -/
def IsBare (name : String) : Prop :=
  name.toList ≠ [] ∧ name.toList.all isBareChar = true

instance (name : String) : Decidable (IsBare name) :=
  inferInstanceAs (Decidable (name.toList ≠ [] ∧ name.toList.all isBareChar = true))

theorem IsBare.exists_cons {name : String} (h : IsBare name) :
    ∃ c cs, name.toList = c :: cs ∧ isBareChar c = true := by
  obtain ⟨c, cs, hcs⟩ := List.exists_cons_of_ne_nil h.1
  exact ⟨c, cs, hcs, List.all_eq_true.mp h.2 c (hcs ▸ List.mem_cons_self)⟩

theorem skipBlanks_cons {c : Char} (h : isBlank c = false) (cs : List Char) :
    skipBlanks (c :: cs) = c :: cs :=
  List.dropWhile_cons_of_neg (by simp [h])

/-- No blank is in front of a bare name. -/
theorem IsBare.skipBlanks_append {name : String} (h : IsBare name) (cs : List Char) :
    skipBlanks (name.toList ++ cs) = name.toList ++ cs := by
  obtain ⟨c, more, hname, hc⟩ := h.exists_cons
  have hblank : isBlank c = false := by
    simp [isBlank, ne_of_kind hc (d := ' ') rfl, ne_of_kind hc (d := '\t') rfl]
  rw [hname, List.cons_append, skipBlanks_cons hblank]

/-- A bare name reads up to the first character that a bare name cannot have. -/
theorem name?_append {name : String} (h : IsBare name) {c : Char} (hc : isBareChar c = false) :
    name? (name.toList ++ c :: rest) = some (name, c :: rest) := by
  have hread : (name.toList ++ c :: rest).takeWhile isBareChar = name.toList :=
    takeWhile_append_cons (List.all_eq_true.mp h.2) hc rest
  obtain ⟨d, more, hname, hd⟩ := h.exists_cons
  unfold name?
  rw [hread]
  split
  case h_1 heq =>
    rw [hname] at heq
    exact absurd (List.cons.inj heq).1 (ne_of_kind hd rfl)
  case h_2 heq =>
    rw [hname] at heq
    exact absurd (List.cons.inj heq).1 (ne_of_kind hd rfl)
  case h_3 => simp [h.1]

/-- A bare name is a key of that name alone if no point follows. -/
theorem key?_append {name : String} (h : IsBare name) {c : Char} (hc : isBareChar c = false)
    {d : Char} {ahead : List Char} (hahead : skipBlanks (c :: rest) = d :: ahead) (hd : d ≠ '.') :
    key? (name.toList ++ c :: rest) = some ([name], d :: ahead) := by
  simp [key?, names?, h.skipBlanks_append, name?_append h hc, hahead, hd, nestingLimit]

/-! ### Lines -/

namespace Line

/-- What a line says. -/
def statements : Line → List Statement
  | blank => []
  | header name => [.table [name]]
  | setting name value => [.assign [name] value.node]

/-- Whether a line reads back as it is written: with bare names and writable values. -/
def Writable : Line → Prop
  | blank => True
  | header name => IsBare name
  | setting name value => IsBare name ∧ value.Writable

end Line

theorem lineRest?_newline : lineRest? ('\n' :: rest) = some rest := by
  rw [lineRest?, skipBlanks_cons rfl]
  rfl

/-- The characters of a value do not start with a blank. -/
theorem Value.skipBlanks_chars {v : Value} :
    skipBlanks (v.chars ++ rest) = v.chars ++ rest := by
  cases v with
  | natural n =>
      obtain ⟨d, ds, hds⟩ := List.exists_cons_of_ne_nil (Nat.toDigits_ne_nil (n := n) (b := 10))
      have hd : d.isDigit = true := isDigit_of_mem_toDigits (n := n) (by simp [hds])
      have hblank : isBlank d = false := by
        simp [isBlank, ne_of_kind hd (d := ' ') rfl, ne_of_kind hd (d := '\t') rfl]
      rw [Value.chars, hds, List.cons_append, skipBlanks_cons hblank]
  | string text => exact skipBlanks_cons rfl _
  | boolean truth => cases truth <;> exact skipBlanks_cons rfl _

theorem header?_append {name : String} (h : IsBare name) :
    header? [']'] (name.toList ++ ']' :: '\n' :: rest) = some ([name], rest) := by
  have hkey : key? (name.toList ++ ']' :: '\n' :: rest) = some ([name], ']' :: '\n' :: rest) :=
    key?_append h rfl (skipBlanks_cons rfl _) (by decide)
  simp [header?, hkey, char?, lineRest?_newline]

theorem assignment?_append {name : String} (h : IsBare name) {v : Value} (hv : v.Writable) :
    assignment? (name.toList ++ ' ' :: '=' :: ' ' :: (v.chars ++ '\n' :: rest))
      = some (.assign [name] v.node, rest) := by
  have hkey : key? (name.toList ++ ' ' :: '=' :: ' ' :: (v.chars ++ '\n' :: rest))
      = some ([name], '=' :: ' ' :: (v.chars ++ '\n' :: rest)) :=
    key?_append h rfl rfl (by decide)
  have hblank : skipBlanks (' ' :: (v.chars ++ '\n' :: rest)) = v.chars ++ '\n' :: rest := by
    show skipBlanks (v.chars ++ '\n' :: rest) = v.chars ++ '\n' :: rest
    exact Value.skipBlanks_chars
  simp [assignment?, hkey, char?, hblank, value?_chars hv, lineRest?_newline]

/-- A line is read off whatever comes after it. -/
theorem statements?_line {l : Line} (h : l.Writable) (fuel : Nat) :
    statements? (fuel + 1) (l.chars ++ '\n' :: rest)
      = (statements? fuel rest).map (l.statements ++ ·) := by
  cases l with
  | blank =>
      rw [Line.chars, List.nil_append, statements?, skipBlanks_cons rfl]
      simp [newline?, Line.statements]
  | header name =>
      have hheader : header? [']'] (name.toList ++ ']' :: '\n' :: rest) = some ([name], rest) :=
        header?_append h
      obtain ⟨c, more, hname, hc⟩ := h.exists_cons
      have hbracket : c ≠ '[' := ne_of_kind hc rfl
      simp only [Line.chars, List.cons_append, List.append_assoc, List.nil_append]
      rw [hname, List.cons_append] at hheader ⊢
      conv_lhs => unfold statements?
      rw [skipBlanks_cons rfl]
      simp [hbracket, hheader, Line.statements]
  | setting name value =>
      obtain ⟨hname, hvalue⟩ := h
      let ahead := ' ' :: '=' :: ' ' :: (value.chars ++ '\n' :: rest)
      have hassignment : assignment? (name.toList ++ ahead)
          = some (.assign [name] value.node, rest) := assignment?_append hname hvalue
      have hblanks : skipBlanks (name.toList ++ ahead) = name.toList ++ ahead :=
        hname.skipBlanks_append ahead
      obtain ⟨c, more, hcons, hc⟩ := hname.exists_cons
      have hne : ∀ mark : Char, isBareChar mark = false → c ≠ mark := fun _ => ne_of_kind hc
      simp only [Line.chars, List.cons_append, List.append_assoc]
      rw [hcons, List.cons_append] at hassignment hblanks ⊢
      conv_lhs => unfold statements?
      rw [hblanks]
      simp [hne '#' rfl, hne '[' rfl, newline?, hne '\n' rfl, hne '\r' rfl, hassignment,
        Line.statements]

/-- The lines of a document read as what they say, one after the other. -/
theorem statements?_lines {lines : List Line} (h : ∀ l ∈ lines, l.Writable) {fuel : Nat}
    (hfuel : lines.length < fuel) :
    statements? fuel (lines.flatMap fun l => l.chars ++ ['\n'])
      = some (lines.flatMap Line.statements) := by
  induction lines generalizing fuel with
  | nil =>
      obtain ⟨fuel, rfl⟩ := Nat.exists_eq_succ_of_ne_zero (Nat.ne_zero_of_lt hfuel)
      simp [statements?, skipBlanks]
  | cons l lines ih =>
      obtain ⟨fuel, rfl⟩ := Nat.exists_eq_succ_of_ne_zero (Nat.ne_zero_of_lt hfuel)
      have hrest : statements? fuel (lines.flatMap fun l => l.chars ++ ['\n'])
          = some (lines.flatMap Line.statements) :=
        ih (fun l' hl' => h l' (List.mem_cons_of_mem _ hl')) (by simpa using hfuel)
      rw [List.flatMap_cons, List.append_assoc, List.singleton_append,
        statements?_line (h l List.mem_cons_self), hrest, Option.map_some, List.flatMap_cons]

/-- The mark of Unicode text is not at the start of a line. -/
theorem Line.skipMark_chars {l : Line} (h : l.Writable) :
    skipMark (l.chars ++ '\n' :: rest) = l.chars ++ '\n' :: rest := by
  cases l with
  | blank => rfl
  | header name => rfl
  | setting name value =>
      obtain ⟨c, more, hname, hc⟩ := h.1.exists_cons
      have hmark : c ≠ '\ufeff' := ne_of_kind hc rfl
      rw [Line.chars, hname]
      simp [skipMark, hmark]

/-- Every line has at least the character that ends it. -/
theorem length_le_chars (lines : List Line) :
    lines.length ≤ (lines.flatMap fun l => l.chars ++ ['\n']).length := by
  induction lines with
  | nil => exact Nat.le_refl 0
  | cons l lines ih =>
      rw [List.flatMap_cons, List.length_append, List.length_append, List.length_cons]
      simp only [List.length_singleton]
      omega

/-- A document of lines reads as what they say. -/
theorem parse?_lines {lines : List Line} (h : ∀ l ∈ lines, l.Writable) :
    parse? (String.ofList (lines.flatMap fun l => l.chars ++ ['\n']))
      = ofStatements? (lines.flatMap Line.statements) := by
  have hmark : skipMark (lines.flatMap fun l => l.chars ++ ['\n'])
      = lines.flatMap fun l => l.chars ++ ['\n'] := by
    cases lines with
    | nil => rfl
    | cons l lines =>
        rw [List.flatMap_cons, List.append_assoc, List.singleton_append]
        exact Line.skipMark_chars (h l List.mem_cons_self)
  rw [parse?, String.toList_ofList, hmark,
    statements?_lines h (Nat.lt_succ_of_le (length_le_chars lines))]
  rfl

/-! ### Statements -/

section Statements

variable {name : String} {before inner : Entries}

theorem lookup_eq_none_of_not_mem {entries : Entries} (h : name ∉ entries.map Prod.fst) :
    entries.lookup name = none := by
  rw [List.lookup_eq_none_iff]
  intro entry hentry
  exact bne_iff_ne.mpr fun heq => h (heq ▸ List.mem_map_of_mem hentry)

/-- Replacing what a name at the end stands for leaves the other names. -/
theorem Entries.replace_last (hname : name ∉ before.map Prod.fst) (old new : Node) :
    Entries.replace (before ++ [(name, old)]) name new = before ++ [(name, new)] := by
  have hbefore : Entries.replace before name new = before := by
    have hkept : ∀ entry ∈ before, (if entry.1 = name then (entry.1, new) else entry) = entry :=
      fun entry hentry => if_neg fun heq : entry.1 = name =>
        hname (heq ▸ List.mem_map_of_mem hentry)
    simpa [Entries.replace] using List.map_congr_left hkept
  rw [Entries.replace, List.map_append, ← Entries.replace, hbefore]
  simp

/-- A change of the table that was opened last. -/
theorem Entries.modify?_last (hname : name ∉ before.map Prod.fst)
    (change : Entries → Option Entries) :
    Entries.modify? change [name] (before ++ [(name, .table .header inner)])
      = (change inner).map fun inner => before ++ [(name, .table .header inner)] := by
  have hlookup : (before ++ [(name, Node.table .header inner)]).lookup name
      = some (.table .header inner) := by
    simp [List.lookup_append, lookup_eq_none_of_not_mem hname]
  simp [Entries.modify?, hlookup, Entries.replace_last hname]

/-- A header opens an empty table at the end. -/
theorem step?_table (hname : name ∉ before.map Prod.fst) (current : List String) :
    Progress.step? ⟨before, current⟩ (.table [name])
      = some ⟨before ++ [(name, .table .header [])], [name]⟩ := by
  simp [Progress.step?, Entries.modify?, Entries.openTable?, lookup_eq_none_of_not_mem hname]

/-- An assignment adds to the table that was opened last. -/
theorem step?_assign (hname : name ∉ before.map Prod.fst) {key : String}
    (hkey : key ∉ inner.map Prod.fst) (value : Node) :
    Progress.step? ⟨before ++ [(name, .table .header inner)], [name]⟩ (.assign [key] value)
      = some ⟨before ++ [(name, .table .header (inner ++ [(key, value)]))], [name]⟩ := by
  simp [Progress.step?, Entries.modify?_last hname, Entries.assign?, lookup_eq_none_of_not_mem hkey]

/-- The assignments of a section, one after the other, fill its table in their order. -/
theorem foldlM_assign (hname : name ∉ before.map Prod.fst) {settings : List (String × Node)}
    (hkeys : (inner.map Prod.fst ++ settings.map Prod.fst).Nodup) :
    (settings.map fun (key, value) => Statement.assign [key] value).foldlM Progress.step?
        ⟨before ++ [(name, .table .header inner)], [name]⟩
      = some ⟨before ++ [(name, .table .header (inner ++ settings))], [name]⟩ := by
  induction settings generalizing inner with
  | nil => simp
  | cons setting settings ih =>
      obtain ⟨key, value⟩ := setting
      have hkey : key ∉ inner.map Prod.fst := fun hmem =>
        (List.nodup_append.mp hkeys).2.2 key hmem key List.mem_cons_self rfl
      have hrest : ((inner ++ [(key, value)]).map Prod.fst ++ settings.map Prod.fst).Nodup := by
        simpa using hkeys
      rw [List.map_cons, List.foldlM_cons, step?_assign hname hkey]
      simpa using ih hrest

end Statements

/-! ### Sections -/

namespace Section

/-- The entry that a section is in a document. -/
def entry (s : Section) : String × Node :=
  (s.name, .table .header (s.settings.map fun (key, value) => (key, value.node)))

/-- Whether a section can be written: with bare names, none of them twice, and with writable
values. -/
structure Writable (s : Section) : Prop where
  name : IsBare s.name
  settings : ∀ setting ∈ s.settings, IsBare setting.1 ∧ setting.2.Writable
  nodup : (s.settings.map Prod.fst).Nodup

theorem Writable.lines {s : Section} (h : s.Writable) : ∀ l ∈ s.lines, l.Writable := by
  intro l hl
  obtain rfl | hl := List.mem_cons.mp hl
  · exact h.name
  · obtain ⟨setting, hsetting, rfl⟩ := List.mem_map.mp hl
    exact h.settings setting hsetting

end Section

/-- The statements of a section put it at the end of a document without a table of its name. -/
theorem foldlM_section {s : Section} (h : s.Writable) {before : Entries}
    (hname : s.name ∉ before.map Prod.fst) (current : List String) :
    (s.lines.flatMap Line.statements).foldlM Progress.step? ⟨before, current⟩
      = some ⟨before ++ [s.entry], [s.name]⟩ := by
  have hstatements : s.lines.flatMap Line.statements = .table [s.name] ::
      (s.settings.map fun (key, value) => (key, value.node)).map
        fun (key, value) => Statement.assign [key] value := by
    simp [Section.lines, Line.statements, List.flatMap_map, ← List.map_eq_flatMap]
  have hkeys : ((s.settings.map fun (key, value) => (key, value.node)).map Prod.fst).Nodup := by
    simpa [Function.comp_def] using h.nodup
  rw [hstatements, List.foldlM_cons, step?_table hname]
  show (List.map _ _).foldlM Progress.step? ⟨before ++ [(s.name, .table .header [])], [s.name]⟩ = _
  rw [foldlM_assign hname (by simpa using hkeys)]
  rfl

theorem mem_documentLines {sections : List Section} {l : Line} (h : l ∈ documentLines sections) :
    l = .blank ∨ ∃ s ∈ sections, l ∈ s.lines := by
  cases sections with
  | nil => exact absurd h List.not_mem_nil
  | cons s rest =>
      obtain hl | hl := List.mem_append.mp h
      · exact .inr ⟨s, List.mem_cons_self, hl⟩
      · obtain ⟨s', hs', hl⟩ := List.mem_flatMap.mp hl
        obtain rfl | hl := List.mem_cons.mp hl
        · exact .inl rfl
        · exact .inr ⟨s', List.mem_cons_of_mem s hs', hl⟩

/-- Empty lines say nothing. -/
theorem statements_documentLines (sections : List Section) :
    (documentLines sections).flatMap Line.statements
      = sections.flatMap fun s => s.lines.flatMap Line.statements := by
  cases sections with
  | nil => rfl
  | cons s rest => simp [documentLines, List.flatMap_assoc, Line.statements]

/-- The statements of sections with different names put them at the end, in their order. -/
theorem foldlM_sections {sections : List Section} (h : ∀ s ∈ sections, s.Writable)
    {p : Progress} (hnames : (p.root.map Prod.fst ++ sections.map Section.name).Nodup) :
    ∃ current, (sections.flatMap fun s => s.lines.flatMap Line.statements).foldlM Progress.step? p
      = some ⟨p.root ++ sections.map Section.entry, current⟩ := by
  induction sections generalizing p with
  | nil => exact ⟨p.current, by simp⟩
  | cons s rest ih =>
      have hname : s.name ∉ p.root.map Prod.fst := fun hmem =>
        (List.nodup_append.mp hnames).2.2 s.name hmem s.name List.mem_cons_self rfl
      obtain ⟨current, hrest⟩ := ih (fun s' hs' => h s' (List.mem_cons_of_mem _ hs'))
        (p := ⟨p.root ++ [s.entry], [s.name]⟩) (by simpa [Section.entry] using hnames)
      refine ⟨current, ?_⟩
      rw [List.flatMap_cons, List.foldlM_append, foldlM_section (h s List.mem_cons_self) hname]
      simpa using hrest

/-- **A document of sections reads back.** Sections with different names become tables with
exactly their settings, in their order. -/
theorem parse?_documentText {sections : List Section} (h : ∀ s ∈ sections, s.Writable)
    (hnames : (sections.map Section.name).Nodup) :
    parse? (documentText sections) = some (sections.map Section.entry) := by
  have hlines : ∀ l ∈ documentLines sections, l.Writable := by
    intro l hl
    obtain rfl | ⟨s, hs, hl⟩ := mem_documentLines hl
    · trivial
    · exact (h s hs).lines l hl
  obtain ⟨current, hrun⟩ := foldlM_sections h (p := ⟨[], []⟩) (by simpa using hnames)
  rw [documentText, parse?_lines hlines, statements_documentLines, ofStatements?, hrun]
  simp

end QueryAnalysis.Toml

import Mathlib.Data.List.Basic
import QueryAnalysis.Toml.Reader
import QueryAnalysis.Toml.Writer

/-!
# Values that read back

Natural numbers, strings without escapes and truth values as a document has them at the end of a
line (`Value`). Reading such a value gives it back and stops at the line end (`value?_chars`). For
numbers this says that the digits are neither taken for a date nor for a time of day, that they
have no leading zero, and that they stand for the number.
-/

namespace QueryAnalysis.Toml

open Text (hexDigit?)

/-! ### Characters of a kind -/

/-- What is taken while characters are of a kind is the characters up to the first other one. -/
theorem takeWhile_append_cons {α : Type} {p : α → Bool} {xs : List α} (h : ∀ x ∈ xs, p x = true)
    {y : α} (hy : p y = false) (rest : List α) :
    (xs ++ y :: rest).takeWhile p = xs := by
  rw [List.takeWhile_append_of_pos h, List.takeWhile_cons_of_neg (by simp [hy]), List.append_nil]

theorem ne_of_kind {kind : Char → Bool} {c d : Char} (hc : kind c = true) (hd : kind d = false) :
    c ≠ d := by
  intro heq
  exact absurd (heq ▸ hc) (by simp [hd])

/-! ### Decimal digits -/

variable {ds : List Char} {rest : List Char}

theorem isDigit_of_mem_toDigits {n : Nat} {c : Char} (h : c ∈ Nat.toDigits 10 n) :
    c.isDigit = true :=
  Nat.isDigit_of_mem_toDigits (by decide) (by decide) h

theorem hexDigit?_of_isDigit {c : Char} (h : c.isDigit = true) :
    hexDigit? c = some (c.toNat - '0'.toNat) := by
  have hbounds : '0' ≤ c ∧ c ≤ '9' := by simpa [Char.isDigit, Char.le_def] using h
  rw [hexDigit?, if_pos hbounds]

/-- The value of decimal digits as the reader computes it is their value. -/
theorem digitsValue_toDigits (n : Nat) : digitsValue 10 (Nat.toDigits 10 n) = n := by
  have hfold : digitsValue 10 (Nat.toDigits 10 n) = Nat.ofDigitChars 10 (Nat.toDigits 10 n) 0 := by
    rw [digitsValue, Nat.ofDigitChars_eq_foldl]
    refine List.foldl_ext _ _ _ fun value c hc => ?_
    rw [hexDigit?_of_isDigit (isDigit_of_mem_toDigits hc), Option.getD_some, Nat.mul_comm]
  rw [hfold, Nat.ofDigitChars_ten_toDigits]

theorem head?_toDigits_ne_zero {n : Nat} (h : 0 < n) : (Nat.toDigits 10 n).head? ≠ some '0' := by
  induction n using Nat.strongRecOn with
  | ind n ih =>
      rw [Nat.toDigits_eq_if (by decide)]
      split
      case isTrue hlt =>
        have hall : ∀ d < 10, 0 < d → Nat.digitChar d ≠ '0' := by decide
        simpa using hall n hlt h
      case isFalse hge =>
        rw [List.head?_append_of_ne_nil _ Nat.toDigits_ne_nil]
        exact ih (n / 10) (by omega) (by omega)

/-- Only zero is written with a zero in front, and then it is the only digit. -/
theorem toDigits_length_of_head? {n : Nat} (h : (Nat.toDigits 10 n).head? = some '0') :
    (Nat.toDigits 10 n).length = 1 := by
  obtain rfl | hpos := Nat.eq_zero_or_pos n
  · rfl
  · exact absurd h (head?_toDigits_ne_zero hpos)

/-! ### Digits at the end of a line are no point in time -/

/-- A fixed count of digits, read from digits at the end of a line, leaves a digit or the line end
ahead, so that no other character follows. -/
theorem char?_of_fixedDigits? (hds : ∀ c ∈ ds, c.isDigit = true) {count value : Nat}
    {ahead : List Char} (h : fixedDigits? count (ds ++ '\n' :: rest) = some (value, ahead))
    (mark : Char) (hmark : mark.isDigit = false) (hline : mark ≠ '\n') :
    char? mark ahead = none := by
  simp only [fixedDigits?] at h
  split at h
  case isFalse => exact absurd h (by simp)
  case isTrue hread =>
    -- a longer count would run into the line end, which is no digit
    have hcount : count ≤ ds.length := by
      by_contra hlt
      obtain ⟨more, hmore⟩ : ∃ more, count - ds.length = more + 1 :=
        ⟨count - ds.length - 1, by omega⟩
      have hmem : '\n' ∈ (ds ++ '\n' :: rest).take count := by
        rw [List.take_append, hmore, List.take_succ_cons]
        exact List.mem_append_right _ List.mem_cons_self
      exact absurd (List.all_eq_true.mp hread.2 '\n' hmem) (by decide)
    have hahead : ahead = ds.drop count ++ '\n' :: rest := by
      rw [← List.drop_append_of_le_length hcount]
      exact (congrArg Prod.snd (Option.some.inj h)).symm
    rw [hahead]
    cases hdrop : ds.drop count with
    | nil => simp [char?, hline.symm]
    | cons d more =>
        have hd : d.isDigit = true := hds d (List.mem_of_mem_drop (hdrop ▸ List.mem_cons_self))
        simp [char?, ne_of_kind hd hmark]

theorem dateTime?_digits (hds : ∀ c ∈ ds, c.isDigit = true) :
    dateTime? (ds ++ '\n' :: rest) = none := by
  have hdate : date? (ds ++ '\n' :: rest) = none := by
    cases hyear : fixedDigits? 4 (ds ++ '\n' :: rest) with
    | none => simp [date?, hyear]
    | some read =>
        simp [date?, hyear, char?_of_fixedDigits? hds hyear '-' rfl (by decide)]
  have htime : time? (ds ++ '\n' :: rest) = none := by
    cases hhour : fixedDigits? 2 (ds ++ '\n' :: rest) with
    | none => simp [time?, hhour]
    | some read =>
        simp [time?, hhour, char?_of_fixedDigits? hds hhour ':' rfl (by decide)]
  simp [dateTime?, hdate, htime]

/-! ### Numbers -/

theorem isSpaced_of_isDigit (hne : ds ≠ []) (hds : ∀ c ∈ ds, c.isDigit = true) :
    isSpaced ds = true := by
  induction ds with
  | nil => exact absurd rfl hne
  | cons d more ih =>
      have hd : d ≠ '_' := ne_of_kind (hds d List.mem_cons_self) rfl
      cases more with
      | nil => simp [isSpaced, hd]
      | cons e more =>
          have he : e ≠ '_' := ne_of_kind (hds e (by simp)) rfl
          simpa [isSpaced, hd, he] using ih (by simp) fun c hc => hds c (List.mem_cons_of_mem _ hc)

theorem digitRun?_digits (hne : ds ≠ []) (hds : ∀ c ∈ ds, c.isDigit = true) :
    digitRun? Char.isDigit (ds ++ '\n' :: rest) = some (ds, '\n' :: rest) := by
  have hrun : (ds ++ '\n' :: rest).takeWhile (fun c => c.isDigit || c == '_') = ds :=
    takeWhile_append_cons (fun c hc => by simp [hds c hc]) rfl rest
  have hkept : ds.filter (fun c => c != '_') = ds :=
    List.filter_eq_self.mpr fun c hc => by simpa using ne_of_kind (hds c hc) rfl
  simp [digitRun?, hrun, isSpaced_of_isDigit hne hds, hkept]

/-- Digits at the end of a line go to the reader of unsigned decimal numbers. -/
theorem number?_digits (hne : ds ≠ []) (hds : ∀ c ∈ ds, c.isDigit = true) :
    number? (ds ++ '\n' :: rest) = decimal? false (ds ++ '\n' :: rest) := by
  obtain ⟨d, more, rfl⟩ := List.exists_cons_of_ne_nil hne
  have hd : d.isDigit = true := hds d List.mem_cons_self
  have hmark : ∀ mark : Char, mark.isDigit = false → d ≠ mark := fun _ => ne_of_kind hd
  -- the character after the first digit is a digit or the line end, so no base is announced
  obtain ⟨e, after, he, hafter⟩ : ∃ e after, (e.isDigit = true ∨ e = '\n') ∧
      more ++ '\n' :: rest = e :: after := by
    cases more with
    | nil => exact ⟨'\n', rest, .inr rfl, rfl⟩
    | cons e more => exact ⟨e, more ++ '\n' :: rest, .inl (hds e (by simp)), rfl⟩
  have hbase : ∀ mark : Char, mark.isDigit = false → mark ≠ '\n' → e ≠ mark := by
    intro mark hdigit hline
    obtain he | rfl := he
    · exact ne_of_kind he hdigit
    · exact hline.symm
  have htime : dateTime? (d :: more ++ '\n' :: rest) = none := dateTime?_digits hds
  rw [List.cons_append, hafter] at htime ⊢
  unfold number?
  rw [htime]
  simp [hmark '-' rfl, hmark '+' rfl, hmark 'i' rfl, hmark 'n' rfl, hbase 'x' rfl (by decide),
    hbase 'o' rfl (by decide), hbase 'b' rfl (by decide)]

theorem number?_toDigits {n : Nat} (hn : (n : Int) ≤ Int64.maxValue.toInt) :
    number? (Nat.toDigits 10 n ++ '\n' :: rest) = some (.integer n, '\n' :: rest) := by
  have hds : ∀ c ∈ Nat.toDigits 10 n, c.isDigit = true := fun _ => isDigit_of_mem_toDigits
  have hhead : ¬((Nat.toDigits 10 n).head? = some '0' ∧ (Nat.toDigits 10 n).length ≠ 1) :=
    fun h => h.2 (toDigits_length_of_head? h.1)
  rw [number?_digits Nat.toDigits_ne_nil hds, decimal?, digitRun?_digits Nat.toDigits_ne_nil hds]
  simp [hhead, fraction?, exponent?, digitsValue_toDigits, integerOf?, hn]

/-! ### Strings -/

/-- Whether a character stands for itself in a string in double quotes. -/
def isPlainChar (c : Char) : Bool :=
  isTextChar c && c != '\x22' && c != '\\'

theorem basicBody_append {cs : List Char} (h : ∀ c ∈ cs, isPlainChar c = true) {fuel : Nat}
    (hfuel : cs.length < fuel) : basicBody fuel (cs ++ '\x22' :: rest) = some (cs, rest) := by
  induction cs generalizing fuel with
  | nil =>
      obtain ⟨fuel, rfl⟩ := Nat.exists_eq_succ_of_ne_zero (Nat.ne_zero_of_lt hfuel)
      simp [basicBody]
  | cons c cs ih =>
      obtain ⟨fuel, rfl⟩ := Nat.exists_eq_succ_of_ne_zero (Nat.ne_zero_of_lt hfuel)
      have hc : (isTextChar c = true ∧ c ≠ '\x22') ∧ c ≠ '\\' := by
        simpa [isPlainChar] using h c List.mem_cons_self
      have hrest : basicBody fuel (cs ++ '\x22' :: rest) = some (cs, rest) :=
        ih (fun d hd => h d (List.mem_cons_of_mem _ hd)) (by simpa using hfuel)
      simp [basicBody, hc, hrest]

/-- A string of plain characters reads back. Its quotes are not the first two of three. -/
theorem string?_append {cs : List Char} (h : ∀ c ∈ cs, isPlainChar c = true) :
    string? ('\x22' :: (cs ++ '\x22' :: '\n' :: rest)) = some (String.ofList cs, '\n' :: rest) := by
  have hbody : basicBody ((cs ++ '\x22' :: '\n' :: rest).length + 1) (cs ++ '\x22' :: '\n' :: rest)
      = some (cs, '\n' :: rest) := basicBody_append h (by rw [List.length_append]; omega)
  cases cs with
  | nil => simp [string?, basicBody]
  | cons c cs =>
      have hc : c ≠ '\x22' := by
        intro heq
        exact absurd (heq ▸ h c List.mem_cons_self) (by decide)
      unfold string?
      simp only [List.cons_append] at hbody ⊢
      split
      case h_1 heq => exact absurd (List.cons.inj (List.cons.inj heq).2).1 hc
      case h_3 heq =>
        obtain rfl := (List.cons.inj heq).2
        rw [hbody, Option.map_some]
      all_goals simp_all

/-! ### Values -/

namespace Value

/-- The node that a value is in a document. -/
def node : Value → Node
  | natural n => .integer n
  | string text => .string text
  | boolean truth => .boolean truth

/-- Whether a document can hold a value as it is written: numbers have 63 bits, and no
character of a string needs an escape. -/
def Writable : Value → Prop
  | natural n => (n : Int) ≤ Int64.maxValue.toInt
  | string text => text.toList.all isPlainChar = true
  | boolean _ => True

instance : (v : Value) → Decidable v.Writable
  | natural n => inferInstanceAs (Decidable ((n : Int) ≤ Int64.maxValue.toInt))
  | string text => inferInstanceAs (Decidable (text.toList.all isPlainChar = true))
  | boolean _ => inferInstanceAs (Decidable True)

end Value

/-- The reader of values goes on to numbers if a digit is ahead. -/
theorem value?_of_isDigit {d : Char} (hd : d.isDigit = true) (fuel room : Nat) (cs : List Char) :
    value? (fuel + 1) room (d :: cs) = number? (d :: cs) := by
  have hne : ∀ mark : Char, mark.isDigit = false → d ≠ mark := fun _ => ne_of_kind hd
  simp [value?, hne '\x22' rfl, hne '\x27' rfl, hne 't' rfl, hne 'f' rfl, hne '[' rfl,
    hne '\x7b' rfl]

/-- A value at the end of a line reads back. -/
theorem value?_chars {v : Value} (h : v.Writable) (fuel room : Nat) :
    value? (fuel + 1) room (v.chars ++ '\n' :: rest) = some (v.node, '\n' :: rest) := by
  cases v with
  | natural n =>
      obtain ⟨d, ds, hds⟩ := List.exists_cons_of_ne_nil (Nat.toDigits_ne_nil (n := n) (b := 10))
      have hd : d.isDigit = true := isDigit_of_mem_toDigits (n := n) (by simp [hds])
      have hnumber : number? (Nat.toDigits 10 n ++ '\n' :: rest) = some (.integer n, '\n' :: rest) :=
        number?_toDigits h
      simp only [Value.chars, Value.node, hds, List.cons_append] at hnumber ⊢
      rw [value?_of_isDigit hd, hnumber]
  | string text =>
      have hstring : string? ('\x22' :: (text.toList ++ '\x22' :: '\n' :: rest))
          = some (String.ofList text.toList, '\n' :: rest) :=
        string?_append (List.all_eq_true.mp h)
      simp [Value.chars, Value.node, value?, hstring]
  | boolean truth => cases truth <;> simp [Value.chars, Value.node, value?]

end QueryAnalysis.Toml

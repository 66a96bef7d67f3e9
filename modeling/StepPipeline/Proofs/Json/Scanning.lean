import StepPipeline.Json.Printer
import StepPipeline.Json.Reader
import StepPipeline.Proofs.Document.Holds

/-!
# Reading strings and numerals as they are written

A reader gets back the strings and the whole numbers that are written, wherever they stand. A
numeral ends where something follows that cannot be part of it (`Stops`); a string says itself where
it ends.

**Escapes (`Escaped`).** A character of a string stands for itself, or is written with a letter or
with four digits behind a backslash.

**Results.**
* `readString_written`, `passString_written`: a written string is read, and passed over, to its end.
* `value_digits`: the value of the digits of a number that fits into 64 bits.
* `stringReading_written`, `numberReading_written`: the nodes that come of it hold what was written.
-/
namespace StepPipeline.Json

open Document
open Document.Node (Holds)

/-! ## Characters of a string -/

theorem hex?_hexDigit {d : Nat} (h : d < 16) : hex? (Text.hexDigit d) = some d := by
  revert d
  decide

/-- How a character may stand in a string. -/
inductive Escaped (c : Char) : List Char → Prop where
  | itself (hq : c ≠ '"') (hb : c ≠ '\\') (hc : ¬ c.toNat < 0x20) : Escaped c [c]
  | letter {x : Char} (hu : x ≠ 'u') (hx : simpleEscape? x = some c) : Escaped c ['\\', x]
  | digits {a b d e : Char} {n : Nat} (hn : hex4? a b d e = some n) (hs : n < 0xD800)
    (hc : Char.ofNat n = c) : Escaped c ['\\', 'u', a, b, d, e]

theorem escaped_escapeChar (c : Char) : Escaped c (escapeChar c) := by
  unfold escapeChar
  split
  · subst_vars; exact .letter (by decide) rfl
  split
  · subst_vars; exact .letter (by decide) rfl
  split
  · subst_vars; exact .letter (by decide) rfl
  split
  · subst_vars; exact .letter (by decide) rfl
  split
  · subst_vars; exact .letter (by decide) rfl
  split
  · subst_vars; exact .letter (by decide) rfl
  split
  · subst_vars; exact .letter (by decide) rfl
  split
  · rename_i hc
    have hhigh := hex?_hexDigit (d := c.toNat / 16) (by omega)
    have hlow := hex?_hexDigit (d := c.toNat % 16) (by omega)
    have hzero : hex? '0' = some 0 := rfl
    have hn : hex4? '0' '0' (Text.hexDigit (c.toNat / 16)) (Text.hexDigit (c.toNat % 16)) =
        some c.toNat := by
      simp only [hex4?, hhigh, hlow, hzero, bind, Option.bind, pure]
      congr 1
      omega
    exact .digits hn (by omega) (Char.ofNat_toNat c)
  · exact .itself ‹_› ‹_› ‹_›

section
variable {c : Char} {text : List Char} (rest : List Char) (p : Position)

theorem readString_letter {x : Char} (hu : x ≠ 'u') (hx : simpleEscape? x = some c)
    (acc : List Char) :
    readString acc ('\\' :: x :: rest) p = readString (c :: acc) rest ((p.after '\\').after x) := by
  rw [readString.eq_def]
  split <;> grind

theorem readString_digits {a b d e : Char} {n : Nat} (h : hex4? a b d e = some n)
    (hn : n < 0xD800) (acc : List Char) :
    readString acc ('\\' :: 'u' :: a :: b :: d :: e :: rest) p =
      readString (Char.ofNat n :: acc) rest (((p.after '\\').after 'u').afterAll [a, b, d, e]) := by
  have htrailing : isTrailingSurrogate n = false := by
    simp only [isTrailingSurrogate, Bool.and_eq_false_iff, decide_eq_false_iff_not]
    omega
  have hleading : isLeadingSurrogate n = false := by
    simp only [isLeadingSurrogate, Bool.and_eq_false_iff, decide_eq_false_iff_not]
    omega
  rw [readString]
  simp only [h, htrailing, hleading]
  rfl

theorem readString_itself (hq : c ≠ '"') (hb : c ≠ '\\') (hc : ¬ c.toNat < 0x20)
    (acc : List Char) :
    readString acc (c :: rest) p = readString (c :: acc) rest (p.after c) := by
  rw [readString.eq_def]
  split <;> grind

theorem readString_escaped (h : Escaped c text) (acc : List Char) :
    ∃ q, readString acc (text ++ rest) p = readString (c :: acc) rest q := by
  cases h with
  | itself hq hb hc => exact ⟨_, readString_itself rest p hq hb hc acc⟩
  | letter hu hx => exact ⟨_, readString_letter rest p hu hx acc⟩
  | digits hn hs hc => exact ⟨_, hc ▸ readString_digits rest p hn hs acc⟩

theorem passString_escaped (h : Escaped c text) :
    ∃ q, passString (text ++ rest) p = passString rest q := by
  cases h with
  | itself hq hb hc =>
    refine ⟨p.after c, ?_⟩
    rw [List.singleton_append, passString.eq_def]
    split <;> grind
  | @letter x hu hx =>
    refine ⟨(p.after '\\').after x, ?_⟩
    rw [List.cons_append, List.singleton_append, passString.eq_def]
    split <;> grind
  | @digits a b d e n hn hs hc =>
    refine ⟨((p.after '\\').after 'u').afterAll [a, b, d, e], ?_⟩
    simp only [List.cons_append, List.nil_append, passString, hn]

end

/-! ## Strings -/

theorem readString_written (cs acc rest : List Char) (p : Position) :
    ∃ q, readString acc (cs.flatMap escapeChar ++ '"' :: rest) p =
      .ok (String.ofList (acc.reverse ++ cs), ⟨rest, q⟩) := by
  induction cs generalizing acc p with
  | nil => exact ⟨p.after '"', by simp [readString]⟩
  | cons c cs ih =>
    rw [List.flatMap_cons, List.append_assoc]
    obtain ⟨q, hq⟩ := readString_escaped (cs.flatMap escapeChar ++ '"' :: rest) p
      (escaped_escapeChar c) acc
    obtain ⟨q', hq'⟩ := ih (c :: acc) q
    exact ⟨q', by rw [hq, hq']; simp⟩

theorem passString_written (cs rest : List Char) (p : Position) :
    ∃ q, passString (cs.flatMap escapeChar ++ '"' :: rest) p = .ok ⟨rest, q⟩ := by
  induction cs generalizing p with
  | nil => exact ⟨p.after '"', by simp [passString]⟩
  | cons c cs ih =>
    rw [List.flatMap_cons, List.append_assoc]
    obtain ⟨q, hq⟩ := passString_escaped (cs.flatMap escapeChar ++ '"' :: rest) p
      (escaped_escapeChar c)
    obtain ⟨q', hq'⟩ := ih q
    exact ⟨q', by rw [hq, hq']⟩

/-- A written string is read to its closing quote. -/
theorem stringReading_written (s : String) (rest : List Char) (p : Position) :
    ∃ node q, stringReading ⟨writeString s ++ rest, p⟩ = (node, some ⟨rest, q⟩) ∧
      Holds (.string s) node := by
  have htext : (writeString s ++ rest).drop 1 =
      s.toList.flatMap escapeChar ++ '"' :: rest := by
    simp [writeString]
  obtain ⟨_, hread⟩ := readString_written s.toList [] rest (p.after '"')
  obtain ⟨q, hpass⟩ := passString_written s.toList rest (p.after '"')
  have hs : String.ofList ([].reverse ++ s.toList) = s := String.ofList_toList
  rw [hs] at hread
  unfold stringReading scalarReading
  simp only [htext, hread, hpass]
  exact ⟨_, q, rfl, .string s⟩

/-! ## Digits -/

/-- A blank between the parts of a text. -/
def IsBlank (c : Char) : Prop := c = ' ' ∨ c = '\n' ∨ c = '\t' ∨ c = '\r'

/-- Nothing of a numeral can follow. -/
def Stops (rest : List Char) : Prop :=
  ∀ c ∈ rest.head?, c = ',' ∨ c = ']' ∨ c = '\x7d' ∨ IsBlank c

theorem stops_nil : Stops [] := nofun

theorem stops_cons {c : Char} {rest : List Char}
    (h : c = ',' ∨ c = ']' ∨ c = '\x7d' ∨ IsBlank c) : Stops (c :: rest) := by
  rintro _ ⟨⟩
  exact h

/-- The number that a digit writes. -/
def digitValue (c : Char) : Nat := c.toNat - '0'.toNat

theorem digit?_of_isDigit {c : Char} (h : c.isDigit = true) : digit? c = some (digitValue c) := by
  simp only [Char.isDigit, Bool.and_eq_true, decide_eq_true_eq] at h
  exact if_pos h

theorem takeDigits_written {ds rest : List Char} (hd : ∀ c ∈ ds, c.isDigit = true)
    (hr : Stops rest) (p : Position) :
    ∃ marked q, takeDigits (ds ++ rest) p = (marked, ⟨rest, q⟩) ∧
      marked.map (·.1) = ds.map digitValue := by
  induction ds generalizing p with
  | nil =>
    refine ⟨[], p, ?_, rfl⟩
    cases rest with
    | nil => rfl
    | cons c rest =>
      have hc : digit? c = none := by
        rcases hr c rfl with rfl | rfl | rfl | rfl | rfl | rfl | rfl <;> rfl
      simp [takeDigits, hc]
  | cons c ds ih =>
    obtain ⟨hc, hds⟩ := List.forall_mem_cons.mp hd
    obtain ⟨marked, q, htake, hvalues⟩ := ih hds (p.after c)
    refine ⟨(digitValue c, p.after c) :: marked, q, ?_, by rw [List.map_cons, hvalues]; rfl⟩
    simp only [List.cons_append, takeDigits, digit?_of_isDigit hc, htake]

/-- Digits that do not grow too large are all taken. -/
theorem takeSignificand_eq {ds : List Nat} {significand : Nat}
    (h : ds.foldl (fun n d => n * 10 + d) significand ≤ significandLimit) :
    takeSignificand significand ds = (ds.foldl (fun n d => n * 10 + d) significand, []) := by
  induction ds generalizing significand with
  | nil => rfl
  | cons d ds ih =>
    have hgrows : ∀ (ds : List Nat) (n : Nat), n ≤ ds.foldl (fun n d => n * 10 + d) n := by
      intro ds
      induction ds with
      | nil => exact fun n => Nat.le_refl n
      | cons d ds ih => exact fun n => Nat.le_trans (by omega) (ih (n * 10 + d))
    rw [List.foldl_cons] at h
    have hfits : ¬ significandLimit < significand * 10 + d :=
      Nat.not_lt.mpr (Nat.le_trans (hgrows ds _) h)
    rw [takeSignificand, if_neg hfits, ih h]
    rfl

theorem foldl_digitValue (n : Nat) :
    ((Nat.toDigits 10 n).map digitValue).foldl (fun n d => n * 10 + d) 0 = n := by
  have h := @Nat.ofDigitChars_toDigits 10 n (by decide) (by decide)
  unfold Nat.ofDigitChars at h
  rw [List.foldl_map]
  simpa only [Nat.mul_comm, digitValue] using h

/-- Zero is written with one digit, and no other number starts with it. -/
theorem toDigits_zero_head {n : Nat} {c : Char} {ds : List Char}
    (h : Nat.toDigits 10 n = c :: ds) (hc : digitValue c = 0) : ds = [] := by
  induction n using Nat.strongRecOn generalizing ds with
  | ind n ih =>
    rw [Nat.toDigits_eq_if (by decide)] at h
    split at h
    · cases h
      rfl
    · rename_i hlarge
      cases hfront : Nat.toDigits 10 (n / 10) with
      | nil => exact absurd hfront Nat.toDigits_ne_nil
      | cons c' front =>
        rw [hfront] at h
        cases h
        -- The front would be one zero, but it writes a number other than zero.
        have hone := ih (n / 10) (by omega) hfront
        have hvalue := foldl_digitValue (n / 10)
        rw [hfront, hone] at hvalue
        simp only [List.map_cons, List.map_nil, List.foldl_cons, List.foldl_nil, hc] at hvalue
        omega

/-! ## Whole numbers -/

theorem scanWhole_written (n : Nat) {rest : List Char} (hr : Stops rest) (p : Position) :
    ∃ q, scanWhole ⟨Nat.toDigits 10 n ++ rest, p⟩ =
      .ok ((Nat.toDigits 10 n).map digitValue, ⟨rest, q⟩) := by
  have hd : ∀ c ∈ Nat.toDigits 10 n, c.isDigit = true := fun c hc =>
    Nat.isDigit_of_mem_toDigits (by decide) (by decide) hc
  obtain ⟨marked, q, htake, hvalues⟩ := takeDigits_written hd hr p
  refine ⟨q, ?_⟩
  cases hdigits : Nat.toDigits 10 n with
  | nil => exact absurd hdigits Nat.toDigits_ne_nil
  | cons c ds =>
    rw [hdigits] at htake hvalues
    unfold scanWhole
    simp only [List.cons_append] at htake ⊢
    rw [htake]
    match marked, hvalues with
    | [(d, _)], hvalues => rw [← hvalues]; cases d <;> rfl
    | (0, _) :: second :: marked, hvalues =>
      simp only [List.map_cons, List.cons.injEq] at hvalues
      rw [toDigits_zero_head hdigits hvalues.1.symm] at hvalues
      simp at hvalues
    | (_ + 1, _) :: second :: marked, hvalues => rw [← hvalues]; rfl

theorem scanFraction_stops {rest : List Char} (hr : Stops rest) (p : Position) :
    scanFraction ⟨rest, p⟩ = .ok (none, ⟨rest, p⟩) := by
  cases rest with
  | nil => rfl
  | cons c rest => rcases hr c rfl with rfl | rfl | rfl | rfl | rfl | rfl | rfl <;> rfl

theorem scanExponent_stops {rest : List Char} (hr : Stops rest) (p : Position) :
    scanExponent ⟨rest, p⟩ = .ok (none, ⟨rest, p⟩) := by
  cases rest with
  | nil => rfl
  | cons c rest => rcases hr c rfl with rfl | rfl | rfl | rfl | rfl | rfl | rfl <;> rfl

theorem scanNumeral_written (n : Int) {rest : List Char} (hr : Stops rest) (p : Position) :
    ∃ q, scanNumeral ⟨writeInt n ++ rest, p⟩ =
      .ok (⟨n < 0, (Nat.toDigits 10 n.natAbs).map digitValue, none, none⟩, ⟨rest, q⟩) := by
  by_cases hn : n < 0
  · obtain ⟨q, hwhole⟩ := scanWhole_written n.natAbs hr (p.after '-')
    refine ⟨q, ?_⟩
    rw [writeInt, if_pos hn, List.cons_append, decide_eq_true hn]
    simp only [scanNumeral, bind, Except.bind, hwhole, scanFraction_stops hr,
      scanExponent_stops hr]
    rfl
  · obtain ⟨q, hwhole⟩ := scanWhole_written n.natAbs hr p
    refine ⟨q, ?_⟩
    rw [writeInt, if_neg hn, decide_eq_false hn]
    have hsign : ∀ cs, Nat.toDigits 10 n.natAbs ++ rest ≠ '-' :: cs := by
      intro cs h
      cases hdigits : Nat.toDigits 10 n.natAbs with
      | nil => exact absurd hdigits Nat.toDigits_ne_nil
      | cons c ds =>
        have hc : c.isDigit = true :=
          Nat.isDigit_of_mem_toDigits (by decide) (by decide) (hdigits ▸ List.mem_cons_self)
        rw [hdigits] at h
        cases h
        cases hc
    unfold scanNumeral
    split
    rename_i minus cur hstart
    split at hstart
    · exact absurd ‹_› (hsign _)
    · cases hstart
      simp only [bind, Except.bind, hwhole, scanFraction_stops hr, scanExponent_stops hr]
      rfl

theorem value_digits {n : Int} (h : (Number.whole n).InRange) (last : Position) :
    Numeral.value ⟨n < 0, (Nat.toDigits 10 n.natAbs).map digitValue, none, none⟩ last =
      .ok (.whole n) := by
  obtain ⟨hleast, hgreatest⟩ := h
  have hlimits : Number.least = -(2 ^ 63) ∧ Number.greatest = 2 ^ 64 - 1 ∧
      significandLimit = 2 ^ 64 - 1 ∧ twoTo 63 = 2 ^ 63 := by decide
  have htake := @takeSignificand_eq ((Nat.toDigits 10 n.natAbs).map digitValue) 0
    (by rw [foldl_digitValue]; omega)
  rw [foldl_digitValue] at htake
  unfold Numeral.value
  simp only [htake]
  by_cases hn : n < 0
  · have hzero : ¬ (n.natAbs = 0 ∨ twoTo 63 < n.natAbs) := by omega
    simp only [hn, decide_true, Bool.not_true, Bool.false_eq_true, if_false, hzero]
    congr 2
    omega
  · simp only [hn, decide_false, Bool.not_false, if_true]
    congr 2
    omega

/-- A number that fits into 64 bits is read to its last digit. -/
theorem numberReading_written {n : Int} (h : (Number.whole n).InRange) {rest : List Char}
    (hr : Stops rest) (p : Position) :
    ∃ node q, numberReading ⟨writeInt n ++ rest, p⟩ = (node, some ⟨rest, q⟩) ∧
      Holds (.number (.whole n)) node := by
  obtain ⟨q, hscan⟩ := scanNumeral_written n hr p
  unfold numberReading
  rw [hscan]
  simp only [value_digits h]
  exact ⟨_, q, rfl, .number (.whole n)⟩

end StepPipeline.Json

import StepPipeline.Text.Blank

/-!
# Texts read back from their octets

What is encoded is decoded to the same text, whatever follows it; and a line end behind a text does
not show once the blanks around it are gone.

**Results.**
* `next_encodeChar`: the octets of a character are read as that character, and no others with it.
* `decode?_encode`, `decodeLossy_encode`: so a text comes back from its octets.
* `encode_lt`: texts are ordered as their octets are.
* `trim_line`: a text and its line are the same without the blanks around them.
-/
namespace StepPipeline

namespace Utf8

/-! ## One character -/

theorem toNat_octet {n : Nat} (h : n < 256) : n.toUInt8.toNat = n := by
  rw [UInt8.toNat_ofNat']
  exact Nat.mod_eq_of_lt h

theorem takeTail_done (acc : Nat) (least greatest : UInt8) (rest : Bytes) :
    takeTail acc 0 least greatest rest = (some acc, 0) := by
  cases rest <;> rfl

/-- An octet in its range adds six bits. -/
theorem takeTail_octet (acc owed m : Nat) (least greatest : UInt8) (rest : Bytes)
    (hl : least.toNat ≤ 0x80 + m) (hg : 0x80 + m ≤ greatest.toNat) :
    takeTail acc (owed + 1) least greatest ((0x80 + m).toUInt8 :: rest) =
      ((takeTail (acc * 0x40 + m) owed 0x80 0xBF rest).1,
        (takeTail (acc * 0x40 + m) owed 0x80 0xBF rest).2 + 1) := by
  have hb : (0x80 + m).toUInt8.toNat = 0x80 + m :=
    toNat_octet (by have := greatest.toNat_lt; omega)
  have hin : (decide (least ≤ (0x80 + m).toUInt8) && decide ((0x80 + m).toUInt8 ≤ greatest)) =
      true := by
    simp only [Bool.and_eq_true, decide_eq_true_eq, UInt8.le_iff_toNat_le, hb]
    exact ⟨hl, hg⟩
  rw [takeTail, if_pos hin, hb, Nat.add_sub_cancel_left]

/-- The code points of characters leave out the surrogates. -/
theorem toNat_char (c : Char) : c.toNat < 0xD800 ∨ 0xDFFF < c.toNat ∧ c.toNat < 0x110000 :=
  c.valid

theorem lead?_two {n : Nat} (hl : 0x80 ≤ n) (hg : n < 0x800) :
    lead? (0xC0 + n / 0x40).toUInt8 = some ⟨n / 0x40, 1, 0x80, 0xBF⟩ := by
  have hb : (0xC0 + n / 0x40).toUInt8.toNat = 0xC0 + n / 0x40 := toNat_octet (by omega)
  unfold lead?
  rw [if_pos, hb, Nat.add_sub_cancel_left]
  simp only [Bool.and_eq_true, decide_eq_true_eq, UInt8.le_iff_toNat_le, hb, UInt8.reduceToNat]
  omega

/-- The octet after the first one of three must not make the character overlong or a surrogate. -/
theorem lead?_three {n : Nat} (hl : 0x800 ≤ n) (hg : n < 0x10000)
    (hc : n < 0xD800 ∨ 0xDFFF < n) :
    ∃ least greatest : UInt8,
      lead? (0xE0 + n / 0x1000).toUInt8 = some ⟨n / 0x1000, 2, least, greatest⟩ ∧
      least.toNat ≤ 0x80 + n / 0x40 % 0x40 ∧ 0x80 + n / 0x40 % 0x40 ≤ greatest.toNat := by
  have hb : (0xE0 + n / 0x1000).toUInt8.toNat = 0xE0 + n / 0x1000 := toNat_octet (by omega)
  unfold lead?
  simp only [Bool.and_eq_true, decide_eq_true_eq, UInt8.le_iff_toNat_le, ← UInt8.toNat_inj, hb,
    UInt8.reduceToNat]
  by_cases hfirst : n / 0x1000 = 0
  · refine ⟨0xA0, 0xBF, ?_, ?_⟩
    · rw [if_neg (by omega), if_pos (by omega), hfirst]
    · simp only [UInt8.reduceToNat]
      omega
  by_cases hsurrogate : n / 0x1000 = 0xD
  · refine ⟨0x80, 0x9F, ?_, ?_⟩
    · rw [if_neg (by omega), if_neg (by omega), if_pos (by omega), hsurrogate]
    · simp only [UInt8.reduceToNat]
      omega
  · refine ⟨0x80, 0xBF, ?_, ?_⟩
    · rw [if_neg (by omega), if_neg (by omega), if_neg (by omega), if_pos (by omega),
        Nat.add_sub_cancel_left]
    · simp only [UInt8.reduceToNat]
      omega

/-- The octet after the first one of four must not make the character overlong or too great. -/
theorem lead?_four {n : Nat} (hl : 0x10000 ≤ n) (hg : n < 0x110000) :
    ∃ least greatest : UInt8,
      lead? (0xF0 + n / 0x40000).toUInt8 = some ⟨n / 0x40000, 3, least, greatest⟩ ∧
      least.toNat ≤ 0x80 + n / 0x1000 % 0x40 ∧ 0x80 + n / 0x1000 % 0x40 ≤ greatest.toNat := by
  have hb : (0xF0 + n / 0x40000).toUInt8.toNat = 0xF0 + n / 0x40000 := toNat_octet (by omega)
  unfold lead?
  simp only [Bool.and_eq_true, decide_eq_true_eq, UInt8.le_iff_toNat_le, ← UInt8.toNat_inj, hb,
    UInt8.reduceToNat]
  rw [if_neg (by omega), if_neg (by omega), if_neg (by omega), if_neg (by omega)]
  by_cases hfirst : n / 0x40000 = 0
  · refine ⟨0x90, 0xBF, ?_, ?_⟩
    · rw [if_pos (by omega), hfirst]
    · simp only [UInt8.reduceToNat]
      omega
  by_cases hlast : n / 0x40000 = 4
  · refine ⟨0x80, 0x8F, ?_, ?_⟩
    · rw [if_neg (by omega), if_neg (by omega), if_pos (by omega), hlast]
    · simp only [UInt8.reduceToNat]
      omega
  · refine ⟨0x80, 0xBF, ?_, ?_⟩
    · rw [if_neg (by omega), if_pos (by omega), Nat.add_sub_cancel_left]
    · simp only [UInt8.reduceToNat]
      omega

/-- An octet from 0x80 on does not stand for itself. -/
theorem next_lead {n bits owed : Nat} {least greatest : UInt8} (rest : Bytes) (hl : 0x80 ≤ n)
    (hg : n < 0x100) (h : lead? n.toUInt8 = some ⟨bits, owed, least, greatest⟩) :
    next n.toUInt8 rest =
      ((takeTail bits owed least greatest rest).1.map Char.ofNat,
        (takeTail bits owed least greatest rest).2) := by
  have hb : ¬ n.toUInt8 < 0x80 := by
    rw [UInt8.lt_iff_toNat_lt, toNat_octet hg]
    simp only [UInt8.reduceToNat]
    omega
  rw [next, if_neg hb, h]

/-- **One character.** Its octets are read as that character, and no more are read. -/
theorem next_encodeChar (c : Char) (rest : Bytes) :
    ∃ first more, encodeChar c = first :: more ∧
      next first (more ++ rest) = (some c, more.length) := by
  have hc := toNat_char c
  have hback : Char.ofNat c.toNat = c := Char.ofNat_toNat c
  have htail (m : Nat) : (0x80 : UInt8).toNat ≤ 0x80 + m % 0x40 ∧
      0x80 + m % 0x40 ≤ (0xBF : UInt8).toNat := by
    simp only [UInt8.reduceToNat]
    omega
  unfold encodeChar
  generalize hn : c.toNat = n at hc hback ⊢
  simp only
  by_cases h1 : n < 0x80
  · refine ⟨_, _, if_pos h1, ?_⟩
    have hb : n.toUInt8.toNat = n := toNat_octet (by omega)
    have hlt : n.toUInt8 < 0x80 := by
      rw [UInt8.lt_iff_toNat_lt, hb]
      exact h1
    rw [next, if_pos hlt, hb, hback]
    rfl
  rw [if_neg h1]
  by_cases h2 : n < 0x800
  · refine ⟨_, _, if_pos h2, ?_⟩
    have hcode : n / 0x40 * 0x40 + n % 0x40 = n := by omega
    rw [next_lead _ (by omega) (by omega) (lead?_two (by omega) h2), List.singleton_append,
      takeTail_octet _ _ _ _ _ _ (htail n).1 (htail n).2, takeTail_done, hcode, Option.map_some,
      hback]
    rfl
  rw [if_neg h2]
  by_cases h3 : n < 0x10000
  · refine ⟨_, _, if_pos h3, ?_⟩
    obtain ⟨least, greatest, hlead, hleast, hgreatest⟩ := lead?_three (by omega) h3 (by omega)
    have hcode : (n / 0x1000 * 0x40 + n / 0x40 % 0x40) * 0x40 + n % 0x40 = n := by omega
    rw [next_lead _ (by omega) (by omega) hlead, List.cons_append, List.singleton_append,
      takeTail_octet _ _ _ _ _ _ hleast hgreatest,
      takeTail_octet _ _ _ _ _ _ (htail n).1 (htail n).2, takeTail_done, hcode, Option.map_some,
      hback]
    rfl
  · refine ⟨_, _, if_neg h3, ?_⟩
    have hg : n < 0x110000 := by omega
    obtain ⟨least, greatest, hlead, hleast, hgreatest⟩ := lead?_four (Nat.le_of_not_lt h3) hg
    have hcode : ((n / 0x40000 * 0x40 + n / 0x1000 % 0x40) * 0x40 + n / 0x40 % 0x40) * 0x40 +
        n % 0x40 = n := by omega
    rw [next_lead _ (by omega) (by omega) hlead, List.cons_append, List.cons_append,
      List.singleton_append, takeTail_octet _ _ _ _ _ _ hleast hgreatest,
      takeTail_octet _ _ _ _ _ _ (htail _).1 (htail _).2,
      takeTail_octet _ _ _ _ _ _ (htail n).1 (htail n).2, takeTail_done, hcode, Option.map_some,
      hback]
    rfl

/-! ## Texts -/

theorem chars_encodeChar (c : Char) (rest : Bytes) :
    chars (encodeChar c ++ rest) = some c :: chars rest := by
  obtain ⟨first, more, he, hn⟩ := next_encodeChar c rest
  rw [he, List.cons_append, chars, hn]
  simp only [List.drop_left]

theorem chars_encode (s : List Char) (rest : Bytes) :
    chars (s.flatMap encodeChar ++ rest) = s.map some ++ chars rest := by
  induction s with
  | nil => rfl
  | cons c s ih =>
    rw [List.flatMap_cons, List.append_assoc, chars_encodeChar, ih]
    rfl

theorem decode?_encode (s : String) : decode? (encode s) = some s := by
  have h := chars_encode s.toList []
  rw [List.append_nil, chars, List.append_nil] at h
  have hall : ∀ cs : List Char, (cs.map some).mapM id = some cs := by
    intro cs
    induction cs with
    | nil => rfl
    | cons c cs ih => simp [ih]
  rw [decode?, encode, h, hall]
  exact congrArg some String.ofList_toList

theorem decodeLossy_encode (s : String) : decodeLossy (encode s) = s := by
  have h := chars_encode s.toList []
  rw [List.append_nil] at h
  rw [decodeLossy, encode, h, chars, List.append_nil, List.map_map]
  exact (congrArg String.ofList (List.map_id s.toList)).trans String.ofList_toList

/-! ## Order -/

/-- Octets are compared one behind the other. -/
theorem octet_cons_lt {m n : Nat} {x y : Bytes} (hn : n < 256) (hle : m ≤ n)
    (h : m = n → x < y) : m.toUInt8 :: x < n.toUInt8 :: y := by
  rw [List.cons_lt_cons_iff, UInt8.lt_iff_toNat_lt, toNat_octet hn, toNat_octet (by omega)]
  rcases Nat.lt_or_eq_of_le hle with hlt | rfl
  · exact Or.inl hlt
  · exact Or.inr ⟨rfl, h rfl⟩

theorem append_lt_append (common : Bytes) {x y : Bytes} (h : x < y) : common ++ x < common ++ y := by
  induction common with
  | nil => exact h
  | cons octet common ih => exact .cons ih

/-- The octets of a lesser character come first, whatever follows them. -/
theorem encodeChar_lt {c d : Char} (h : c < d) (x y : Bytes) :
    encodeChar c ++ x < encodeChar d ++ y := by
  have hd := toNat_char d
  have hlt : c.toNat < d.toNat := h
  unfold encodeChar
  generalize c.toNat = m at hlt
  generalize d.toNat = n at hd hlt
  simp only
  -- A character with fewer octets has a lesser first octet; otherwise the octets are compared.
  by_cases h1 : m < 0x80
  · rw [if_pos h1]
    split
    · exact octet_cons_lt (by omega) (by omega) fun _ => by omega
    split
    · exact octet_cons_lt (by omega) (by omega) fun _ => by omega
    split <;> exact octet_cons_lt (by omega) (by omega) fun _ => by omega
  rw [if_neg h1, if_neg (by omega : ¬ n < 0x80)]
  by_cases h2 : m < 0x800
  · rw [if_pos h2]
    split
    · exact octet_cons_lt (by omega) (by omega) fun _ =>
        octet_cons_lt (by omega) (by omega) fun _ => by omega
    split <;> exact octet_cons_lt (by omega) (by omega) fun _ => by omega
  rw [if_neg h2, if_neg (by omega : ¬ n < 0x800)]
  by_cases h3 : m < 0x10000
  · rw [if_pos h3]
    split
    · exact octet_cons_lt (by omega) (by omega) fun _ =>
        octet_cons_lt (by omega) (by omega) fun _ =>
        octet_cons_lt (by omega) (by omega) fun _ => by omega
    · exact octet_cons_lt (by omega) (by omega) fun _ => by omega
  · rw [if_neg h3, if_neg (by omega : ¬ n < 0x10000)]
    exact octet_cons_lt (by omega) (by omega) fun _ =>
      octet_cons_lt (by omega) (by omega) fun _ =>
      octet_cons_lt (by omega) (by omega) fun _ =>
      octet_cons_lt (by omega) (by omega) fun _ => by omega

/-- **Order.** Texts are in the order of their octets. -/
theorem encode_lt {a b : String} (h : a < b) : encode a < encode b := by
  rw [String.lt_iff] at h
  unfold encode
  generalize a.toList = cs at h
  generalize b.toList = ds at h
  induction h with
  | nil =>
    obtain ⟨first, more, hfirst, -⟩ := next_encodeChar ‹Char› []
    rw [List.flatMap_cons, hfirst]
    exact .nil
  | rel h => exact encodeChar_lt h _ _
  | cons h ih =>
    rw [List.flatMap_cons, List.flatMap_cons]
    exact append_lt_append _ ih
end Utf8

namespace Text

/-! ## Blanks at the end -/

theorem trimEnd_blank (s : List Char) {b : Char} (hb : isBlank b = true) :
    trimEnd (s ++ [b]) = trimEnd s := by
  unfold trimEnd
  rw [List.reverse_append, List.reverse_singleton, List.singleton_append,
    List.dropWhile_cons_of_pos hb]

theorem trimStart_append (s t : List Char) :
    trimStart (s ++ t) = if trimStart s = [] then trimStart t else trimStart s ++ t := by
  unfold trimStart
  rw [List.dropWhile_append]
  cases s.dropWhile isBlank <;> rfl

/-- The end of a line does not belong to the text. -/
theorem trim_line (s : String) : trim (s ++ "\n") = trim s := by
  have hb : isBlank '\n' = true := by decide
  have hl : (s ++ "\n").toList = s.toList ++ ['\n'] := by simp
  unfold trim
  rw [hl, trimStart_append]
  split
  · rename_i h
    rw [h]
    rfl
  · rw [trimEnd_blank _ hb]

end Text
end StepPipeline

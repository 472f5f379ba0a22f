import Vai.Text
/-!
# Utf8 — what is encoded is decoded

`str::from_utf8` gives back the text that `String::into_bytes` wrote, character by character, and the encoding of a
character outside ASCII has no ASCII byte.
-/
namespace Vai
namespace Text

theorem toNat_ofNat_of_lt {n : Nat} (hn : n < 256) : (UInt8.ofNat n).toNat = n := by
  rw [UInt8.toNat_ofNat']
  omega

theorem inRange_ofNat {lo hi : UInt8} {n : Nat} (hn : n < 256) :
    inRange lo hi (UInt8.ofNat n) = decide (lo.toNat ≤ n ∧ n ≤ hi.toNat) := by
  unfold inRange
  simp only [UInt8.le_iff_toNat_le, toNat_ofNat_of_lt hn, Bool.decide_and]

theorem inRange_of_le {lo hi : UInt8} {n : Nat} (hn : n < 256) (h : lo.toNat ≤ n ∧ n ≤ hi.toNat) :
    inRange lo hi (UInt8.ofNat n) = true := by
  rw [inRange_ofNat hn]
  exact decide_eq_true h

theorem not_inRange {lo hi : UInt8} {n : Nat} (hn : n < 256) (h : ¬ (lo.toNat ≤ n ∧ n ≤ hi.toNat)) :
    inRange lo hi (UInt8.ofNat n) = false := by
  rw [inRange_ofNat hn]
  exact decide_eq_false h

theorem ofNat_ne {n : Nat} {b : UInt8} (hn : n < 256) (h : n ≠ b.toNat) : UInt8.ofNat n ≠ b := by
  intro he
  apply h
  rw [← he, toNat_ofNat_of_lt hn]

theorem inRange_cont (x : Nat) : inRange 0x80 0xBF (UInt8.ofNat (x % 64 + 128)) = true := by
  apply inRange_of_le (by omega)
  show 128 ≤ _ ∧ _ ≤ 191
  omega

theorem not_ascii {n : Nat} (hn : n < 256) (h : 128 ≤ n) : ¬ (UInt8.ofNat n < 0x80) := by
  rw [UInt8.lt_iff_toNat_lt, toNat_ofNat_of_lt hn]
  show ¬ n < 128
  omega

theorem utf8Step_one {v : Nat} (h : v ≤ 0x7f) (rest : Bytes) :
    utf8Step (UInt8.ofNat v) rest = (some (Char.ofNat v), 0) := by
  have hv : (UInt8.ofNat v).toNat = v := toNat_ofNat_of_lt (by omega)
  unfold utf8Step
  rw [if_pos, hv]
  rw [UInt8.lt_iff_toNat_lt, hv]
  show v < 128
  omega

theorem utf8Step_two {v : Nat} (h1 : 0x7f < v) (h2 : v ≤ 0x7ff) (rest : Bytes) :
    utf8Step (UInt8.ofNat (v / 64 % 0x20 + 0xc0)) (UInt8.ofNat (v % 0x40 + 0x80) :: rest) =
      (some (Char.ofNat v), 1) := by
  have ha := not_ascii (n := v / 64 % 0x20 + 0xc0) (by omega) (by omega)
  have hl : utf8Lead (UInt8.ofNat (v / 64 % 0x20 + 0xc0)) = some (0x80, 0xBF, 0) := by
    unfold utf8Lead
    rw [if_pos]
    apply inRange_of_le (by omega)
    show 0xC2 ≤ _ ∧ _ ≤ 0xDF
    omega
  unfold utf8Step
  rw [if_neg ha, hl]
  simp only [inRange_cont, Bool.not_true, Bool.false_eq_true, if_false, List.take_zero, List.takeWhile_nil,
    List.length_nil, Nat.lt_irrefl, List.foldl_nil, utf8LeadBits, Nat.zero_add, Nat.add_zero]
  rw [toNat_ofNat_of_lt (by omega), toNat_ofNat_of_lt (by omega)]
  congr 3
  omega

/-- The range a lead byte of three asks of the byte after it holds for the encoding of every character. -/
theorem utf8Lead_three {v : Nat} (h1 : 0x7ff < v) (h2 : v ≤ 0xffff) (hs : v < 0xd800 ∨ 0xdfff < v) :
    ∃ lo hi, utf8Lead (UInt8.ofNat (v / 4096 % 0x10 + 0xe0)) = some (lo, hi, 1) ∧
      inRange lo hi (UInt8.ofNat (v / 64 % 0x40 + 0x80)) = true := by
  have hn : v / 4096 % 0x10 + 0xe0 < 256 := by omega
  have h2b : inRange 0xC2 0xDF (UInt8.ofNat (v / 4096 % 0x10 + 0xe0)) = false := by
    apply not_inRange hn
    show ¬ (0xC2 ≤ _ ∧ _ ≤ 0xDF)
    omega
  unfold utf8Lead
  rw [h2b, if_neg (by simp)]
  by_cases h0 : v / 4096 % 0x10 = 0
  · rw [if_pos (by rw [h0]; rfl)]
    refine ⟨_, _, rfl, inRange_of_le (by omega) ?_⟩
    show 0xA0 ≤ _ ∧ _ ≤ 0xBF
    omega
  rw [if_neg (ofNat_ne hn (show _ ≠ 0xE0 by omega))]
  by_cases hd : v / 4096 % 0x10 = 13
  · rw [if_pos (by rw [hd]; rfl)]
    refine ⟨_, _, rfl, inRange_of_le (by omega) ?_⟩
    show 0x80 ≤ _ ∧ _ ≤ 0x9F
    omega
  rw [if_neg (ofNat_ne hn (show _ ≠ 0xED by omega)), if_pos]
  · exact ⟨_, _, rfl, inRange_cont _⟩
  · apply inRange_of_le hn
    show 0xE1 ≤ _ ∧ _ ≤ 0xEF
    omega

theorem utf8Step_three {v : Nat} (h1 : 0x7ff < v) (h2 : v ≤ 0xffff) (hs : v < 0xd800 ∨ 0xdfff < v) (rest : Bytes) :
    utf8Step (UInt8.ofNat (v / 4096 % 0x10 + 0xe0))
      (UInt8.ofNat (v / 64 % 0x40 + 0x80) :: UInt8.ofNat (v % 0x40 + 0x80) :: rest) = (some (Char.ofNat v), 2) := by
  obtain ⟨lo, hi, hl, hr⟩ := utf8Lead_three h1 h2 hs
  have ha := not_ascii (n := v / 4096 % 0x10 + 0xe0) (by omega) (by omega)
  unfold utf8Step
  rw [if_neg ha, hl]
  simp only [hr, Bool.not_true, Bool.false_eq_true, if_false, List.take_succ_cons, List.take_zero,
    List.takeWhile_cons_of_pos (inRange_cont v), List.takeWhile_nil, List.length_cons, List.length_nil,
    Nat.zero_add, Nat.lt_irrefl, List.foldl_cons, List.foldl_nil, utf8LeadBits, Nat.reduceAdd]
  rw [toNat_ofNat_of_lt (by omega), toNat_ofNat_of_lt (by omega), toNat_ofNat_of_lt (by omega)]
  congr 3
  omega

theorem utf8Lead_four {v : Nat} (h1 : 0xffff < v) (h2 : v < 0x110000) :
    ∃ lo hi, utf8Lead (UInt8.ofNat (v / 262144 % 0x08 + 0xf0)) = some (lo, hi, 2) ∧
      inRange lo hi (UInt8.ofNat (v / 4096 % 0x40 + 0x80)) = true := by
  have hn : v / 262144 % 0x08 + 0xf0 < 256 := by omega
  have h2b : inRange 0xC2 0xDF (UInt8.ofNat (v / 262144 % 0x08 + 0xf0)) = false := by
    apply not_inRange hn
    show ¬ (0xC2 ≤ _ ∧ _ ≤ 0xDF)
    omega
  have h3b : inRange 0xE1 0xEF (UInt8.ofNat (v / 262144 % 0x08 + 0xf0)) = false := by
    apply not_inRange hn
    show ¬ (0xE1 ≤ _ ∧ _ ≤ 0xEF)
    omega
  unfold utf8Lead
  rw [h2b, h3b, if_neg (by simp), if_neg (ofNat_ne hn (show _ ≠ 0xE0 by omega)),
    if_neg (ofNat_ne hn (show _ ≠ 0xED by omega)), if_neg (by simp)]
  by_cases h0 : v / 262144 % 0x08 = 0
  · rw [if_pos (by rw [h0]; rfl)]
    refine ⟨_, _, rfl, inRange_of_le (by omega) ?_⟩
    show 0x90 ≤ _ ∧ _ ≤ 0xBF
    omega
  rw [if_neg (ofNat_ne hn (show _ ≠ 0xF0 by omega))]
  by_cases h4 : v / 262144 % 0x08 = 4
  · have h3 : inRange 0xF1 0xF3 (UInt8.ofNat (v / 262144 % 0x08 + 0xf0)) = false := by
      apply not_inRange hn
      show ¬ (0xF1 ≤ _ ∧ _ ≤ 0xF3)
      omega
    rw [h3, if_neg (by simp), if_pos (by rw [h4]; rfl)]
    refine ⟨_, _, rfl, inRange_of_le (by omega) ?_⟩
    show 0x80 ≤ _ ∧ _ ≤ 0x8F
    omega
  rw [if_pos]
  · exact ⟨_, _, rfl, inRange_cont _⟩
  · apply inRange_of_le hn
    show 0xF1 ≤ _ ∧ _ ≤ 0xF3
    omega

theorem utf8Step_four {v : Nat} (h1 : 0xffff < v) (h2 : v < 0x110000) (rest : Bytes) :
    utf8Step (UInt8.ofNat (v / 262144 % 0x08 + 0xf0)) (UInt8.ofNat (v / 4096 % 0x40 + 0x80) ::
      UInt8.ofNat (v / 64 % 0x40 + 0x80) :: UInt8.ofNat (v % 0x40 + 0x80) :: rest) = (some (Char.ofNat v), 3) := by
  obtain ⟨lo, hi, hl, hr⟩ := utf8Lead_four h1 h2
  have ha := not_ascii (n := v / 262144 % 0x08 + 0xf0) (by omega) (by omega)
  unfold utf8Step
  rw [if_neg ha, hl]
  simp only [hr, Bool.not_true, Bool.false_eq_true, if_false, List.take_succ_cons, List.take_zero,
    List.takeWhile_cons_of_pos (inRange_cont v), List.takeWhile_cons_of_pos (inRange_cont (v / 64)), List.takeWhile_nil,
    List.length_cons, List.length_nil, Nat.zero_add, Nat.lt_irrefl, List.foldl_cons, List.foldl_nil, utf8LeadBits,
    Nat.reduceAdd]
  rw [toNat_ofNat_of_lt (by omega), toNat_ofNat_of_lt (by omega), toNat_ofNat_of_lt (by omega),
    toNat_ofNat_of_lt (by omega)]
  congr 3
  omega

theorem utf8EncodeChar_step (c : Char) :
    ∃ b r, String.utf8EncodeChar c = b :: r ∧ ∀ rest, utf8Step b (r ++ rest) = (some c, r.length) := by
  have hc : Char.ofNat c.val.toNat = c := Char.ofNat_toNat c
  have hv : c.val.toNat < 0xd800 ∨ 0xdfff < c.val.toNat ∧ c.val.toNat < 0x110000 := c.valid
  unfold String.utf8EncodeChar
  simp only
  split
  · exact ⟨_, _, rfl, fun rest => by rw [List.nil_append, utf8Step_one (by omega), hc]; rfl⟩
  · split
    · exact ⟨_, _, rfl, fun rest => by
        rw [List.cons_append, List.nil_append, utf8Step_two (by omega) (by omega), hc]; rfl⟩
    · split
      · exact ⟨_, _, rfl, fun rest => by
          rw [List.cons_append, List.cons_append, List.nil_append, utf8Step_three (by omega) (by omega) (by omega), hc]
          rfl⟩
      · exact ⟨_, _, rfl, fun rest => by
          rw [List.cons_append, List.cons_append, List.cons_append, List.nil_append,
            utf8Step_four (by omega) (by omega), hc]
          rfl⟩

@[simp] theorem intoBytes_nil : intoBytes [] = [] := rfl

@[simp] theorem intoBytes_cons (c : Char) (t : Text) : intoBytes (c :: t) = String.utf8EncodeChar c ++ intoBytes t := rfl

theorem intoBytes_append (s t : Text) : intoBytes (s ++ t) = intoBytes s ++ intoBytes t := List.flatMap_append

theorem utf8Decode_intoBytes : ∀ (t : Text) (n : Nat), (intoBytes t).length ≤ n →
    utf8Decode n (intoBytes t) = t.map some
  | [], n, _ => by cases n <;> rfl
  | c :: t, n, hn => by
    obtain ⟨b, r, he, hs⟩ := utf8EncodeChar_step c
    rw [intoBytes_cons, he] at hn ⊢
    cases n with
    | zero => simp at hn
    | succ n =>
      have hl : (intoBytes t).length ≤ n := by
        simp only [List.cons_append, List.length_cons, List.length_append] at hn
        omega
      rw [List.cons_append, utf8Decode, hs]
      simp only [List.drop_left, List.map_cons]
      rw [utf8Decode_intoBytes t n hl]

/-- **A text read back from its own bytes.** -/
@[simp] theorem fromUtf8_intoBytes (t : Text) : fromUtf8 (intoBytes t) = some t := by
  unfold fromUtf8
  rw [utf8Decode_intoBytes t _ (Nat.le_refl _)]
  induction t with
  | nil => rfl
  | cons c t ih => simp [ih]

theorem intoBytes_eq_nil {t : Text} : intoBytes t = [] ↔ t = [] := by
  cases t with
  | nil => simp
  | cons c t => simp [String.utf8EncodeChar_ne_nil]

theorem ascii_of_mem_utf8EncodeChar {c : Char} {b : UInt8} (hb : b.toNat < 128) (h : b ∈ String.utf8EncodeChar c) :
    b.toNat = c.toNat := by
  have key : ∀ n, n < 256 → 128 ≤ n → b ≠ UInt8.ofNat n := by
    intro n h1 h2 he
    rw [he, toNat_ofNat_of_lt h1] at hb
    omega
  unfold String.utf8EncodeChar at h
  simp only at h
  split at h
  · rw [List.mem_singleton] at h
    rw [h, toNat_ofNat_of_lt (by omega)]
    rfl
  · split at h
    · simp only [List.mem_cons, List.not_mem_nil, or_false] at h
      rcases h with h | h <;> exact absurd h (key _ (by omega) (by omega))
    · split at h
      · simp only [List.mem_cons, List.not_mem_nil, or_false] at h
        rcases h with h | h | h <;> exact absurd h (key _ (by omega) (by omega))
      · simp only [List.mem_cons, List.not_mem_nil, or_false] at h
        rcases h with h | h | h | h <;> exact absurd h (key _ (by omega) (by omega))

theorem not_mem_intoBytes {c : Char} {b : UInt8} (hb : b.toNat < 128) (hc : b.toNat = c.toNat) {t : Text} (h : c ∉ t) :
    b ∉ intoBytes t := by
  intro hm
  obtain ⟨d, hd, hbd⟩ := List.mem_flatMap.1 hm
  have hcd : c.toNat = d.toNat := hc ▸ ascii_of_mem_utf8EncodeChar hb hbd
  exact h (Char.toNat_inj.1 hcd ▸ hd)

end Text
end Vai

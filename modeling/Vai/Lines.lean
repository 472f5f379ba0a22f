import Vai.Utf8
/-!
# Lines — the lines of a text and of a byte string

Pieces between newlines, over any kind of character (`pieces`); `str::lines` and the raw lines of a file, which keep
their bytes and how they end, are read off them.  Decoding, lossy or not, leaves ASCII where it is, so that the lines of
a decoded file are its raw lines, decoded (`lines_fromUtf8Lossy`).

`pieces_joinWith`: what is read back of lines that were joined by newlines.
-/
namespace Vai
namespace Text

/-! ## Pieces -/

section Pieces

variable {α : Type} [DecidableEq α] (nl : α)

/-- The pieces of a list at `nl`, each with whether `nl` ended it. -/
def pieces : List α → List (List α × Bool)
  | [] => []
  | c :: s =>
    if c = nl then ([], true) :: pieces s
    else
      match pieces s with
      | [] => [([c], false)]
      | (l, t) :: r => (c :: l, t) :: r

variable {nl}

theorem pieces_append {a : List α} (h : nl ∉ a) (s : List α) : pieces nl (a ++ nl :: s) = (a, true) :: pieces nl s := by
  induction a with
  | nil => simp [pieces]
  | cons c a ih =>
    rw [List.mem_cons, not_or] at h
    simp [pieces, Ne.symm h.1, ih h.2]

theorem pieces_of_not_mem {a : List α} (h : nl ∉ a) : pieces nl a = if a = [] then [] else [(a, false)] := by
  induction a with
  | nil => rfl
  | cons c a ih =>
    rw [List.mem_cons, not_or] at h
    rw [pieces, if_neg (Ne.symm h.1), ih h.2]
    by_cases ha : a = []
    · simp [ha]
    · simp [ha]

variable (nl) in
/-- A list is a piece that nothing ends, or a piece, its end, and the rest. -/
theorem pieces_induction {P : List α → Prop} (hlast : ∀ a, nl ∉ a → P a)
    (hline : ∀ a s, nl ∉ a → P s → P (a ++ nl :: s)) (s : List α) : P s := by
  induction hn : s.length using Nat.strongRecOn generalizing s with
  | ind n ih =>
    by_cases hm : nl ∈ s
    · obtain ⟨a, r, rfl, ha⟩ := List.eq_append_cons_of_mem hm
      exact hline a r ha (ih r.length (by rw [← hn]; simp; omega) r rfl)
    · exact hlast s hm

theorem not_mem_of_mem_pieces {s : List α} : ∀ p ∈ pieces nl s, nl ∉ p.1 := by
  induction s using pieces_induction nl with
  | hlast a ha =>
    rw [pieces_of_not_mem ha]
    split <;> simp [ha]
  | hline a s ha ih =>
    rw [pieces_append ha]
    exact List.forall_mem_cons.2 ⟨ha, ih⟩

/-- Pieces joined by newlines, without one at the end. -/
def joinWith (nl : α) : List (List α) → List α
  | [] => []
  | [l] => l
  | l :: m :: t => l ++ nl :: joinWith nl (m :: t)

omit [DecidableEq α] in
theorem intercalate_eq_joinWith (L : List (List α)) : [nl].intercalate L = joinWith nl L := by
  induction L with
  | nil => rfl
  | cons l L ih =>
    cases L with
    | nil => simp [joinWith, List.intercalate]
    | cons m t =>
      rw [joinWith, ← ih]
      simp [List.intercalate]

omit [DecidableEq α] in
theorem joinWith_concat (nl : α) (last : List α) : ∀ L : List (List α),
    joinWith nl (L ++ [last]) = L.flatMap (fun l => l ++ [nl]) ++ last
  | [] => rfl
  | [l] => by simp [joinWith]
  | l :: m :: t => by
    rw [List.cons_append, List.cons_append, joinWith, ← List.cons_append, joinWith_concat nl last (m :: t)]
    simp

theorem pieces_joinWith_end : ∀ {L : List (List α)}, L ≠ [] → (∀ l ∈ L, nl ∉ l) →
    pieces nl (joinWith nl L ++ [nl]) = L.map (fun l => (l, true))
  | [], h, _ => absurd rfl h
  | [l], _, h => by rw [joinWith, pieces_append (h l (by simp))]; rfl
  | l :: m :: t, _, h => by
    rw [joinWith, List.append_assoc, List.cons_append, pieces_append (h l (by simp)),
      pieces_joinWith_end (by simp) (fun x hx => h x (List.mem_cons_of_mem _ hx))]
    rfl

/-- The joined pieces: the last one is not ended, and not there when it is empty. -/
theorem pieces_joinWith (last : List α) (hlast : nl ∉ last) : ∀ {L : List (List α)}, (∀ l ∈ L, nl ∉ l) →
    pieces nl (joinWith nl (L ++ [last])) = L.map (fun l => (l, true)) ++ if last = [] then [] else [(last, false)]
  | [], _ => pieces_of_not_mem hlast
  | [l], h => by
    rw [List.singleton_append, joinWith, pieces_append (h l (by simp)), joinWith, pieces_of_not_mem hlast]
    rfl
  | l :: m :: t, h => by
    rw [List.cons_append, List.cons_append, joinWith, pieces_append (h l (by simp)), ← List.cons_append,
      pieces_joinWith last hlast (fun x hx => h x (List.mem_cons_of_mem _ hx))]
    rfl

end Pieces

/-! ## Lines of a text -/

/-- The line of a piece: an end with a carriage return before it takes that along. -/
def lineOf (p : Text × Bool) : Text := if p.2 = true ∧ p.1.getLast? = some '\r' then p.1.dropLast else p.1

theorem linesFrom_newline (line s : Text) : linesFrom line ('\n' :: s) = lineOf (line.reverse, true) :: linesFrom [] s := by
  cases line with
  | nil => simp [linesFrom, lineOf]
  | cons c l =>
    by_cases hc : c = '\r'
    · subst hc
      simp [linesFrom, lineOf]
    · simp [linesFrom, lineOf, hc]

theorem linesFrom_cons {c : Char} (h : c ≠ '\n') (line s : Text) : linesFrom line (c :: s) = linesFrom (c :: line) s := by
  conv => lhs; unfold linesFrom
  exact if_neg h

theorem linesFrom_append (line : Text) : ∀ {a : Text}, '\n' ∉ a → ∀ s : Text,
    linesFrom line (a ++ '\n' :: s) = lineOf (line.reverse ++ a, true) :: linesFrom [] s
  | [], _, s => by rw [List.nil_append, linesFrom_newline, List.append_nil]
  | c :: a, h, s => by
    rw [List.mem_cons, not_or] at h
    rw [List.cons_append, linesFrom_cons (Ne.symm h.1), linesFrom_append (c :: line) h.2]
    simp

theorem linesFrom_of_not_mem (line : Text) : ∀ {a : Text}, '\n' ∉ a →
    linesFrom line a = if line.reverse ++ a = [] then [] else [line.reverse ++ a]
  | [], _ => by
    unfold linesFrom
    simp
  | c :: a, h => by
    rw [List.mem_cons, not_or] at h
    rw [linesFrom_cons (Ne.symm h.1), linesFrom_of_not_mem (c :: line) h.2]
    simp

theorem lines_eq (s : Text) : lines s = (pieces '\n' s).map lineOf := by
  unfold lines
  induction s using pieces_induction '\n' with
  | hlast a ha =>
    rw [linesFrom_of_not_mem [] ha, pieces_of_not_mem ha]
    by_cases h : a = []
    · simp [h]
    · simp [h, lineOf]
  | hline a s ha ih => rw [linesFrom_append [] ha, ih, pieces_append ha, List.map_cons, List.reverse_nil, List.nil_append]

theorem not_mem_of_mem_lines {s l : Text} (h : l ∈ lines s) : '\n' ∉ l := by
  rw [lines_eq] at h
  obtain ⟨p, hp, rfl⟩ := List.mem_map.1 h
  have hn := not_mem_of_mem_pieces p hp
  unfold lineOf
  split
  · exact fun hm => hn (List.mem_of_mem_dropLast hm)
  · exact hn

/-! ## Raw lines -/

inductive LineEnding where
  | none | lf | crlf
  deriving DecidableEq, Repr

/-- A line of a file: its bytes, and how it ends. -/
structure RawLine where
  content : Bytes
  ending : LineEnding
  deriving DecidableEq, Repr

def rawLineOf (p : Bytes × Bool) : RawLine :=
  if p.2 = true then (if p.1.getLast? = some 13 then ⟨p.1.dropLast, .crlf⟩ else ⟨p.1, .lf⟩) else ⟨p.1, .none⟩

def rawLines (content : Bytes) : List RawLine := (pieces 10 content).map rawLineOf

/-! ## Decoding around ASCII -/

theorem not_inRange_of_ascii {b : UInt8} (hb : b < 0x80) {lo hi : UInt8} (hlo : 0x80 ≤ lo) : inRange lo hi b = false := by
  unfold inRange
  have : ¬ lo ≤ b := by
    rw [UInt8.le_iff_toNat_le] at hlo ⊢
    rw [UInt8.lt_iff_toNat_lt] at hb
    omega
  simp [this]

theorem utf8Lead_lo {b lo hi : UInt8} {n : Nat} (h : utf8Lead b = some (lo, hi, n)) : 0x80 ≤ lo := by
  unfold utf8Lead at h
  split_ifs at h <;> cases h <;> decide

theorem utf8Step_le (b : UInt8) (rest : Bytes) : (utf8Step b rest).2 ≤ rest.length := by
  unfold utf8Step
  split
  · exact Nat.zero_le _
  · cases utf8Lead b with
    | none => exact Nat.zero_le _
    | some q =>
      obtain ⟨lo, hi, n⟩ := q
      cases rest with
      | nil => exact Nat.zero_le _
      | cons b₁ r =>
        have hle : ((r.take n).takeWhile (inRange 0x80 0xBF)).length ≤ (r.take n).length :=
          (List.takeWhile_prefix _).length_le
        rw [List.length_take] at hle
        dsimp only
        rw [List.length_cons]
        split
        · exact Nat.zero_le _
        · split <;> dsimp only <;> omega

/-- What follows an ASCII byte has no part in the step before it. -/
theorem utf8Step_append {a : UInt8} (ha : a < 0x80) (b : UInt8) (rest r : Bytes) :
    utf8Step b (rest ++ a :: r) = utf8Step b rest := by
  unfold utf8Step
  split
  · rfl
  · split
    · rfl
    · rename_i lo hi n hlead
      have hno : inRange lo hi a = false := not_inRange_of_ascii ha (utf8Lead_lo hlead)
      cases rest with
      | nil => simp [hno]
      | cons b₁ rest =>
        dsimp only [List.cons_append]
        have hcut : ∀ (n : Nat) (rest : Bytes), ((rest ++ a :: r).take n).takeWhile (inRange 0x80 0xBF) =
            (rest.take n).takeWhile (inRange 0x80 0xBF) := by
          intro n
          induction n with
          | zero => simp
          | succ n ih =>
            intro rest
            cases rest with
            | nil =>
              have hno : inRange 0x80 0xBF a = false := not_inRange_of_ascii ha (by decide)
              simp [hno]
            | cons x rest =>
              rw [List.cons_append, List.take_succ_cons, List.take_succ_cons, List.takeWhile_cons, List.takeWhile_cons, ih]
        rw [hcut]

theorem utf8Decode_fuel : ∀ (n m : Nat) (s : Bytes), s.length ≤ n → s.length ≤ m → utf8Decode n s = utf8Decode m s
  | 0, m, s, hn, _ => by
    rw [List.length_eq_zero_iff.1 (Nat.le_zero.1 hn)]
    cases m <;> rfl
  | n + 1, 0, s, _, hm => by
    rw [List.length_eq_zero_iff.1 (Nat.le_zero.1 hm)]
    rfl
  | n + 1, m + 1, [], _, _ => rfl
  | n + 1, m + 1, b :: r, hn, hm => by
    rw [utf8Decode, utf8Decode]
    rw [List.length_cons] at hn hm
    rw [utf8Decode_fuel n m _ (by rw [List.length_drop]; omega) (by rw [List.length_drop]; omega)]

theorem utf8Decode_append {a : UInt8} (ha : a < 0x80) (r : Bytes) : ∀ (n : Nat) (s : Bytes), s.length ≤ n →
    utf8Decode (s ++ a :: r).length (s ++ a :: r) =
      utf8Decode s.length s ++ some (Char.ofNat a.toNat) :: utf8Decode r.length r := by
  intro n
  induction n with
  | zero =>
    intro s hs
    rw [List.length_eq_zero_iff.1 (Nat.le_zero.1 hs), List.nil_append, List.length_cons, utf8Decode]
    have hstep : utf8Step a r = (some (Char.ofNat a.toNat), 0) := by
      unfold utf8Step
      rw [if_pos ha]
    rw [hstep]
    rfl
  | succ n ih =>
    intro s hs
    cases s with
    | nil => exact ih [] (Nat.zero_le _)
    | cons b s =>
      rw [List.length_cons] at hs
      have hle := utf8Step_le b s
      have hd : (s.drop (utf8Step b s).2).length ≤ n := by rw [List.length_drop]; omega
      rw [List.cons_append, List.length_cons, List.length_cons, utf8Decode, utf8Decode, utf8Step_append ha,
        List.drop_append_of_le_length hle,
        utf8Decode_fuel _ (s.drop (utf8Step b s).2 ++ a :: r).length _ (by simp) le_rfl, ih _ hd,
        utf8Decode_fuel s.length (s.drop (utf8Step b s).2).length _ (by simp) le_rfl]
      rfl

/-- **Lossy decoding leaves an ASCII byte where it is.** -/
theorem fromUtf8Lossy_append {a : UInt8} (ha : a < 0x80) (s r : Bytes) :
    fromUtf8Lossy (s ++ a :: r) = fromUtf8Lossy s ++ Char.ofNat a.toNat :: fromUtf8Lossy r := by
  unfold fromUtf8Lossy
  rw [utf8Decode_append ha r s.length s le_rfl, List.map_append, List.map_cons]
  rfl

@[simp] theorem fromUtf8Lossy_intoBytes (t : Text) : fromUtf8Lossy (intoBytes t) = t := by
  unfold fromUtf8Lossy
  rw [utf8Decode_intoBytes t _ le_rfl, List.map_map]
  simp

@[simp] theorem fromUtf8Lossy_eq_nil {s : Bytes} : fromUtf8Lossy s = [] ↔ s = [] := by
  cases s with
  | nil => simp [fromUtf8Lossy, utf8Decode]
  | cons b s => simp [fromUtf8Lossy, utf8Decode]

theorem inRange_iff {lo hi b : UInt8} : inRange lo hi b = true ↔ lo.toNat ≤ b.toNat ∧ b.toNat ≤ hi.toNat := by
  unfold inRange
  rw [Bool.and_eq_true, decide_eq_true_iff, decide_eq_true_iff, UInt8.le_iff_toNat_le, UInt8.le_iff_toNat_le]

/-- The first two bytes of a sequence exclude the values that one byte less would encode. -/
theorem utf8Lead_bits {b b₁ lo hi : UInt8} {n : Nat} (h : utf8Lead b = some (lo, hi, n)) (h₁ : inRange lo hi b₁ = true) :
    n = 0 ∧ 2 ≤ utf8LeadBits (n + 1) b ∨ 0 < n ∧ 2 ≤ utf8LeadBits (n + 1) b * 64 + b₁.toNat % 64 := by
  rw [inRange_iff] at h₁
  unfold utf8Lead at h
  split_ifs at h with h1 h2 h3 h4 h5 h6 h7 <;> cases h
  · rw [inRange_iff] at h1
    have : 0xC2 ≤ b.toNat ∧ b.toNat ≤ 0xDF := h1
    refine .inl ⟨rfl, ?_⟩
    change 2 ≤ b.toNat % 32
    omega
  · have : 0xA0 ≤ b₁.toNat ∧ b₁.toNat ≤ 0xBF := h₁
    refine .inr ⟨Nat.one_pos, ?_⟩
    omega
  · subst h3
    refine .inr ⟨Nat.one_pos, ?_⟩
    change 2 ≤ 13 * 64 + _
    omega
  · rw [inRange_iff] at h4
    have : 0xE1 ≤ b.toNat ∧ b.toNat ≤ 0xEF := h4
    refine .inr ⟨Nat.one_pos, ?_⟩
    change 2 ≤ b.toNat % 16 * 64 + _
    omega
  · have : 0x90 ≤ b₁.toNat ∧ b₁.toNat ≤ 0xBF := h₁
    refine .inr ⟨Nat.two_pos, ?_⟩
    omega
  · rw [inRange_iff] at h6
    have : 0xF1 ≤ b.toNat ∧ b.toNat ≤ 0xF3 := h6
    refine .inr ⟨Nat.two_pos, ?_⟩
    change 2 ≤ b.toNat % 8 * 64 + _
    omega
  · subst h7
    refine .inr ⟨Nat.two_pos, ?_⟩
    change 2 ≤ 4 * 64 + _
    omega

theorem le_foldl_bits : ∀ (more : Bytes) (v : Nat), v ≤ more.foldl (fun v x => v * 64 + x.toNat % 64) v
  | [], v => le_rfl
  | x :: more, v => le_trans (by omega) (le_foldl_bits more (v * 64 + x.toNat % 64))

theorem toNat_ofNat_cases (v : Nat) : (Char.ofNat v).toNat = v ∨ (Char.ofNat v).toNat = 0 := by
  by_cases hv : v.isValidChar
  · exact .inl (by rw [Char.ofNat, dif_pos hv]; rfl)
  · exact .inr (by rw [Char.ofNat, dif_neg hv]; rfl)

theorem ascii_of_utf8Step {b : UInt8} {rest : Bytes} {c : Char} (h : (utf8Step b rest).1.getD (Char.ofNat 0xFFFD) = c)
    (hc : c.toNat < 128) (h0 : c.toNat ≠ 0) : b < 0x80 ∧ b.toNat = c.toNat := by
  have hbad : (Char.ofNat 0xFFFD).toNat = 0xFFFD := rfl
  unfold utf8Step at h
  by_cases hb : b < 0x80
  · rw [if_pos hb] at h
    subst h
    rcases toNat_ofNat_cases b.toNat with hv | hv
    · exact ⟨hb, hv.symm⟩
    · exact absurd hv h0
  exfalso
  rw [if_neg hb] at h
  cases hlead : utf8Lead b with
  | none => rw [hlead] at h; subst h; exact absurd (hbad ▸ hc) (by decide)
  | some q =>
    obtain ⟨lo, hi, n⟩ := q
    rw [hlead] at h
    cases rest with
    | nil => subst h; exact absurd (hbad ▸ hc) (by decide)
    | cons b₁ r =>
      dsimp only at h
      by_cases hr : inRange lo hi b₁ = true
      · rw [hr, Bool.not_true, if_neg Bool.false_ne_true] at h
        have hbits := utf8Lead_bits hlead hr
        generalize hmore : (r.take n).takeWhile (inRange 0x80 0xBF) = more at h
        by_cases hlen : more.length < n
        · rw [if_pos hlen] at h
          subst h
          exact absurd (hbad ▸ hc) (by decide)
        · rw [if_neg hlen, Option.getD_some] at h
          subst h
          -- a sequence of two or more bytes encodes at least 0x80
          have hge : 128 ≤ more.foldl (fun v x => v * 64 + x.toNat % 64) (utf8LeadBits (n + 1) b * 64 + b₁.toNat % 64) := by
            cases more with
            | nil =>
              rw [List.length_nil] at hlen
              rw [List.foldl_nil]
              omega
            | cons x more =>
              have hle := le_foldl_bits more ((utf8LeadBits (n + 1) b * 64 + b₁.toNat % 64) * 64 + x.toNat % 64)
              rw [List.foldl_cons]
              omega
          rcases toNat_ofNat_cases (more.foldl (fun v x => v * 64 + x.toNat % 64)
            (utf8LeadBits (n + 1) b * 64 + b₁.toNat % 64)) with hv | hv
          · omega
          · exact h0 hv
      · rw [Bool.not_eq_true] at hr
        rw [hr, Bool.not_false, if_pos rfl] at h
        subst h
        exact absurd (hbad ▸ hc) (by decide)

theorem mem_of_mem_utf8Decode {c : Char} (hc : c.toNat < 128) (h0 : c.toNat ≠ 0) : ∀ (n : Nat) (s : Bytes),
    c ∈ (utf8Decode n s).map (fun d => d.getD (Char.ofNat 0xFFFD)) → ∃ b ∈ s, b.toNat = c.toNat
  | 0, s, h => by simp [utf8Decode] at h
  | n + 1, [], h => by simp [utf8Decode] at h
  | n + 1, b :: r, h => by
    rw [utf8Decode, List.map_cons] at h
    rcases List.mem_cons.1 h with h | h
    · exact ⟨b, List.mem_cons_self, (ascii_of_utf8Step h.symm hc h0).2⟩
    · obtain ⟨x, hx, he⟩ := mem_of_mem_utf8Decode hc h0 n _ h
      exact ⟨x, List.mem_cons_of_mem _ (List.mem_of_mem_drop hx), he⟩

theorem newline_mem_fromUtf8Lossy {s : Bytes} : '\n' ∈ fromUtf8Lossy s ↔ 10 ∈ s := by
  constructor
  · intro h
    obtain ⟨b, hb, he⟩ := mem_of_mem_utf8Decode (c := '\n') (by decide) (by decide) _ _ h
    rwa [← UInt8.toNat_inj.1 (he.trans (by decide : '\n'.toNat = (10 : UInt8).toNat))]
  · intro h
    obtain ⟨a, r, rfl⟩ := List.append_of_mem h
    rw [fromUtf8Lossy_append (by decide)]
    exact List.mem_append_right _ List.mem_cons_self

/-- The last character comes from a sequence that takes in the last byte. -/
theorem getLast?_utf8Decode {c : Char} (hc : c.toNat < 128) (h0 : c.toNat ≠ 0) : ∀ (n : Nat) (s : Bytes), s.length ≤ n →
    ((utf8Decode n s).map (fun d => d.getD (Char.ofNat 0xFFFD))).getLast? = some c → ∃ b ∈ s.getLast?, b.toNat = c.toNat
  | 0, s, hn, h => by simp [utf8Decode] at h
  | n + 1, [], hn, h => by simp [utf8Decode] at h
  | n + 1, b :: r, hn, h => by
    rw [utf8Decode, List.map_cons] at h
    rw [List.length_cons] at hn
    by_cases hd : r.drop (utf8Step b r).2 = []
    · have hnil : utf8Decode n (r.drop (utf8Step b r).2) = [] := by rw [hd]; cases n <;> rfl
      rw [hnil, List.map_nil, List.getLast?_singleton, Option.some.injEq] at h
      obtain ⟨hb, he⟩ := ascii_of_utf8Step h hc h0
      have hone : (utf8Step b r).2 = 0 := by
        unfold utf8Step
        rw [if_pos hb]
      rw [hone, List.drop_zero] at hd
      subst hd
      exact ⟨b, rfl, he⟩
    · have hne : (utf8Decode n (r.drop (utf8Step b r).2)).map (fun d => d.getD (Char.ofNat 0xFFFD)) ≠ [] := by
        intro hnil
        have hlen := List.length_pos_of_ne_nil hd
        cases n with
        | zero =>
          rw [List.length_drop] at hlen
          omega
        | succ n =>
          cases hr : r.drop (utf8Step b r).2 with
          | nil => exact hd hr
          | cons x t => rw [hr, utf8Decode] at hnil; simp at hnil
      rw [List.getLast?_cons_of_ne_nil hne] at h
      obtain ⟨x, hx, he⟩ := getLast?_utf8Decode hc h0 n _ (by rw [List.length_drop]; omega) h
      refine ⟨x, ?_, he⟩
      have hr : r ≠ [] := fun hr => hd (by rw [hr]; exact List.drop_nil)
      rw [List.getLast?_cons_of_ne_nil hr]
      rwa [List.getLast?_drop, if_neg (by rw [List.drop_eq_nil_iff] at hd; omega)] at hx

theorem getLast?_fromUtf8Lossy {s : Bytes} : (fromUtf8Lossy s).getLast? = some '\r' ↔ s.getLast? = some 13 := by
  constructor
  · intro h
    obtain ⟨b, hb, he⟩ := getLast?_utf8Decode (c := '\r') (by decide) (by decide) _ _ le_rfl h
    rwa [← UInt8.toNat_inj.1 (he.trans (by decide : '\r'.toNat = (13 : UInt8).toNat))]
  · intro h
    obtain ⟨a, rfl⟩ := List.getLast?_eq_some_iff.1 h
    rw [fromUtf8Lossy_append (by decide)]
    simp [fromUtf8Lossy, utf8Decode]

theorem pieces_fromUtf8Lossy (s : Bytes) :
    pieces '\n' (fromUtf8Lossy s) = (pieces 10 s).map (fun p => (fromUtf8Lossy p.1, p.2)) := by
  induction s using pieces_induction (10 : UInt8) with
  | hlast a ha =>
    rw [pieces_of_not_mem ha, pieces_of_not_mem (fun h => ha (newline_mem_fromUtf8Lossy.1 h))]
    by_cases h : a = []
    · simp [h]
    · simp [h]
  | hline a s ha ih =>
    rw [fromUtf8Lossy_append (by decide), pieces_append ha, List.map_cons, ← ih]
    exact pieces_append (fun h => ha (newline_mem_fromUtf8Lossy.1 h)) _

theorem fromUtf8Lossy_rawLineOf (p : Bytes × Bool) : fromUtf8Lossy (rawLineOf p).content = lineOf (fromUtf8Lossy p.1, p.2) := by
  obtain ⟨l, t⟩ := p
  unfold lineOf rawLineOf
  cases t with
  | false => simp
  | true =>
    by_cases hcr : l.getLast? = some 13
    · have hlast := getLast?_fromUtf8Lossy.2 hcr
      obtain ⟨a, rfl⟩ := List.getLast?_eq_some_iff.1 hcr
      have hcut : fromUtf8Lossy (a ++ [13]) = fromUtf8Lossy a ++ ['\r'] := fromUtf8Lossy_append (by decide) a []
      simp [hcut]
    · have hlast : (fromUtf8Lossy l).getLast? ≠ some '\r' := fun h => hcr (getLast?_fromUtf8Lossy.1 h)
      simp [hcr, hlast]

/-- **The lines of a decoded file are its raw lines, decoded.** -/
theorem lines_fromUtf8Lossy (s : Bytes) : lines (fromUtf8Lossy s) = (rawLines s).map (fun r => fromUtf8Lossy r.content) := by
  rw [lines_eq, pieces_fromUtf8Lossy, rawLines, List.map_map, List.map_map]
  exact List.map_congr_left fun p _ => (fromUtf8Lossy_rawLineOf p).symm

theorem lineOf_true_eq {l : Text} : lineOf (l, true) = l ↔ l.getLast? ≠ some '\r' := by
  unfold lineOf
  by_cases h : l.getLast? = some '\r'
  · obtain ⟨a, rfl⟩ := List.getLast?_eq_some_iff.1 h
    simp
  · simp [h]

end Text
end Vai

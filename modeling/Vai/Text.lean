import Mathlib
/-!
# Text — strings as character lists, and slices

Strings are `List Char`, byte strings `List UInt8`.  The functions here are the string and slice operations of the
Rust standard library that the development needs (`strip_prefix`, `split_once`, `trim_end_matches`, `str::lines`,
`String::from_utf8_lossy`, `slice::get`, …), each with the few facts the proofs use about it.
-/
namespace Vai

abbrev Text := List Char
abbrev Bytes := List UInt8

namespace Text

/-- Membership in a list of texts is decided by one instance everywhere. -/
instance lawfulBEq : LawfulBEq Text := inferInstanceAs (LawfulBEq (List Char))

/-- `str::strip_prefix`. -/
def stripPrefix (p s : Text) : Option Text := if p.isPrefixOf s then some (s.drop p.length) else none

/-- `str::split_once` on one character. -/
def splitOnce (c : Char) : Text → Option (Text × Text)
  | [] => none
  | x :: s => if x = c then some ([], s) else (splitOnce c s).map (fun q => (x :: q.1, q.2))

/-- `str::trim_start_matches` on one character. -/
def trimStartMatches (c : Char) (s : Text) : Text := s.dropWhile (· = c)

/-- `str::trim_end_matches` on one character. -/
def trimEndMatches (c : Char) (s : Text) : Text := (s.reverse.dropWhile (· = c)).reverse

/-- `char::is_whitespace`: Unicode's White_Space. -/
def isWhitespace (c : Char) : Bool :=
  (9 ≤ c.toNat && c.toNat ≤ 13) || c.toNat = 0x20 || c.toNat = 0x85 || c.toNat = 0xA0 || c.toNat = 0x1680 ||
    (0x2000 ≤ c.toNat && c.toNat ≤ 0x200A) || c.toNat = 0x2028 || c.toNat = 0x2029 || c.toNat = 0x202F ||
    c.toNat = 0x205F || c.toNat = 0x3000

/-- `str::trim_end`. -/
def trimEnd (s : Text) : Text := (s.reverse.dropWhile isWhitespace).reverse

/-- `str::trim`. -/
def trim (s : Text) : Text := trimEnd (s.dropWhile isWhitespace)

/-- `str::rsplit(c).next()`: what follows the last `c`, or all of it. -/
def afterLast (c : Char) (s : Text) : Text := (s.reverse.takeWhile (· ≠ c)).reverse

/-- `str::contains`. -/
def containsText (s t : Text) : Bool := s.tails.any (fun u => t.isPrefixOf u)

/-- The decimal digits of a number, as `format!("{n}")` writes them. -/
def ofNat (n : Nat) : Text := Nat.toDigits 10 n

/-- `str::parse` of an unsigned integer: an optional `+`, then at least one digit and nothing else. -/
def parseNat (s : Text) : Option Nat :=
  let d := match s with
    | '+' :: d => d
    | d => d
  if d ≠ [] ∧ d.all Char.isDigit then some (Nat.ofDigitChars 10 d 0) else none

theorem stripPrefix_eq_some {p s r : Text} : stripPrefix p s = some r ↔ s = p ++ r := by
  unfold stripPrefix
  constructor
  · intro h
    split at h
    · rename_i hp
      obtain ⟨t, rfl⟩ := List.isPrefixOf_iff_prefix.1 hp
      simpa using h
    · cases h
  · rintro rfl
    simp

@[simp] theorem stripPrefix_append (p s : Text) : stripPrefix p (p ++ s) = some s := stripPrefix_eq_some.2 rfl

theorem stripPrefix_eq_none {p s : Text} : stripPrefix p s = none ↔ ¬ p <+: s := by
  unfold stripPrefix
  simp [List.isPrefixOf_iff_prefix]

theorem splitOnce_append {c : Char} : ∀ {a : Text} (b : Text), c ∉ a → splitOnce c (a ++ c :: b) = some (a, b)
  | [], b, _ => by simp [splitOnce]
  | x :: a, b, h => by
    simp only [List.mem_cons, not_or] at h
    simp [splitOnce, Ne.symm h.1, splitOnce_append b h.2]

theorem splitOnce_eq_some {c : Char} : ∀ {s a b : Text}, splitOnce c s = some (a, b) ↔ s = a ++ c :: b ∧ c ∉ a
  | [], a, b => by simp [splitOnce]
  | x :: s, a, b => by
    unfold splitOnce
    by_cases hx : x = c
    · subst hx
      cases a with
      | nil => simp
      | cons y a =>
        simp only [if_pos, Option.some.injEq, Prod.mk.injEq, List.nil_eq, reduceCtorEq, false_and, false_iff,
          List.cons_append, List.cons.injEq, List.mem_cons, not_or, not_and]
        rintro ⟨rfl, -⟩ h
        exact absurd rfl h
    · rw [if_neg hx]
      cases a with
      | nil => simp [hx]
      | cons y a =>
        simp only [Option.map_eq_some_iff, Prod.mk.injEq, List.cons.injEq, List.cons_append, List.mem_cons, not_or,
          Prod.exists]
        constructor
        · rintro ⟨a', b', h, ⟨rfl, rfl⟩, rfl⟩
          obtain ⟨rfl, hc⟩ := splitOnce_eq_some.1 h
          exact ⟨⟨rfl, rfl⟩, Ne.symm hx, hc⟩
        · rintro ⟨⟨rfl, rfl⟩, -, hc⟩
          exact ⟨a, b, splitOnce_append b hc, ⟨rfl, rfl⟩, rfl⟩

theorem trimEndMatches_of_not_mem {c : Char} {s : Text} (h : c ∉ s) : trimEndMatches c s = s := by
  have hd : s.reverse.dropWhile (· = c) = s.reverse := by
    cases hr : s.reverse with
    | nil => rfl
    | cons x r =>
      have hx : x ≠ c := fun hx => h (List.mem_reverse.1 (by rw [hr, hx]; exact List.mem_cons_self))
      simp [hx]
  rw [trimEndMatches, hd, List.reverse_reverse]

theorem trimEndMatches_append {c : Char} (s : Text) (h : c ∉ s) : trimEndMatches c (s ++ [c]) = s := by
  have hs := trimEndMatches_of_not_mem h
  unfold trimEndMatches at hs ⊢
  simpa using hs

/-- Trimming the end of a text reaches its front only when all of the end is trimmed. -/
theorem trimEndMatches_append_of_ne_nil {c : Char} (a b : Text) (h : trimEndMatches c b ≠ []) :
    trimEndMatches c (a ++ b) = a ++ trimEndMatches c b := by
  unfold trimEndMatches at h ⊢
  rw [List.reverse_append, List.dropWhile_append]
  have hne : (b.reverse.dropWhile (· = c)).isEmpty = false := by
    cases hb : b.reverse.dropWhile (· = c) with
    | nil => rw [hb] at h; exact absurd rfl h
    | cons x r => rfl
  rw [hne]
  simp

theorem ofNat_ne_nil (n : Nat) : ofNat n ≠ [] := Nat.toDigits_ne_nil

theorem isDigit_of_mem_ofNat {n : Nat} {c : Char} (h : c ∈ ofNat n) : c.isDigit :=
  Nat.isDigit_of_mem_toDigits (by decide) (by decide) h

theorem not_mem_ofNat {c : Char} (hc : c.isDigit = false) (n : Nat) : c ∉ ofNat n := fun h => by
  rw [isDigit_of_mem_ofNat h] at hc
  cases hc

theorem parseNat_digits {d : Text} (hne : d ≠ []) (hdig : ∀ c ∈ d, c.isDigit) :
    parseNat d = some (Nat.ofDigitChars 10 d 0) := by
  have hp : ∀ e : Text, e.head? ≠ some '+' → (match e with | '+' :: r => r | r => r) = e := by
    intro e he
    split
    · exact absurd rfl he
    · rfl
  have hd := hp d (fun h => absurd (hdig '+' (List.mem_of_mem_head? h)) (by decide))
  unfold parseNat
  simp only [hd]
  rw [if_pos]
  exact ⟨hne, List.all_eq_true.2 hdig⟩

/-- **Writing a number and reading it back.** -/
@[simp] theorem parseNat_ofNat (n : Nat) : parseNat (ofNat n) = some n := by
  rw [parseNat_digits (ofNat_ne_nil n) (fun c hc => isDigit_of_mem_ofNat hc), ofNat, Nat.ofDigitChars_ten_toDigits]

/-- A text that is read as a number is made of digits, but for its sign. -/
theorem isDigit_of_parseNat {s : Text} {n : Nat} (h : parseNat s = some n) : ∀ c ∈ s, c = '+' ∨ c.isDigit = true := by
  have hread : ∀ d : Text, (if d ≠ [] ∧ d.all Char.isDigit then some (Nat.ofDigitChars 10 d 0) else none) = some n →
      ∀ c ∈ d, c.isDigit = true := by
    intro d hd c hc
    by_cases hall : d ≠ [] ∧ d.all Char.isDigit = true
    · exact List.all_eq_true.1 hall.2 c hc
    · rw [if_neg hall] at hd
      cases hd
  intro c hc
  unfold parseNat at h
  dsimp only at h
  split at h
  · rcases List.mem_cons.1 hc with rfl | hc
    · exact .inl rfl
    · exact .inr (hread _ h c hc)
  · exact .inr (hread _ h c hc)

theorem ofNat_injective {m n : Nat} (h : ofNat m = ofNat n) : m = n := by
  have := congrArg parseNat h
  simpa using this

/-! ## Bytes and characters -/

/-- `u8` in an inclusive range. -/
def inRange (lo hi b : UInt8) : Bool := lo ≤ b && b ≤ hi

/-- The continuation bytes a first byte of a multi-byte sequence asks for: the range of the second one (where the
encoding excludes overlong forms, surrogates and values past U+10FFFF) and how many follow it. -/
def utf8Lead (b : UInt8) : Option (UInt8 × UInt8 × Nat) :=
  if inRange 0xC2 0xDF b then some (0x80, 0xBF, 0)
  else if b = 0xE0 then some (0xA0, 0xBF, 1)
  else if b = 0xED then some (0x80, 0x9F, 1)
  else if inRange 0xE1 0xEF b then some (0x80, 0xBF, 1)
  else if b = 0xF0 then some (0x90, 0xBF, 2)
  else if inRange 0xF1 0xF3 b then some (0x80, 0xBF, 2)
  else if b = 0xF4 then some (0x80, 0x8F, 2)
  else none

/-- The bits a first byte of a sequence with `n` continuation bytes contributes. -/
def utf8LeadBits (n : Nat) (b : UInt8) : Nat :=
  match n with
  | 1 => b.toNat % 32
  | 2 => b.toNat % 16
  | _ => b.toNat % 8

/-- One step of UTF-8 decoding: the character the bytes start with, or `none` for an ill-formed sequence, and how many
bytes after the first belong to it (for an ill-formed one, its maximal prefix, as `Utf8Chunks` splits it). -/
def utf8Step (b : UInt8) (rest : Bytes) : Option Char × Nat :=
  if b < 0x80 then (some (Char.ofNat b.toNat), 0)
  else
    match utf8Lead b with
    | none => (none, 0)
    | some (lo, hi, n) =>
      match rest with
      | [] => (none, 0)
      | b₁ :: rest =>
        if !inRange lo hi b₁ then (none, 0)
        else
          let more := (rest.take n).takeWhile (inRange 0x80 0xBF)
          if more.length < n then (none, 1 + more.length)
          else (some (Char.ofNat (more.foldl (fun v x => v * 64 + x.toNat % 64)
            (utf8LeadBits (n + 1) b * 64 + b₁.toNat % 64))), 1 + n)

/-- All the characters of a byte string, ill-formed sequences as `none`.  The first argument bounds the steps. -/
def utf8Decode : Nat → Bytes → List (Option Char)
  | 0, _ => []
  | _ + 1, [] => []
  | n + 1, b :: r => (utf8Step b r).1 :: utf8Decode n (r.drop (utf8Step b r).2)

/-- `String::from_utf8_lossy`. -/
def fromUtf8Lossy (b : Bytes) : Text := (utf8Decode b.length b).map (fun c => c.getD (Char.ofNat 0xFFFD))

/-- `std::str::from_utf8`, `none` when the bytes are not valid UTF-8. -/
def fromUtf8 (b : Bytes) : Option Text := (utf8Decode b.length b).mapM id

/-- `String::into_bytes`. -/
def intoBytes (t : Text) : Bytes := t.flatMap String.utf8EncodeChar

/-- `str::lines`, on the text left and the line read so far: a line ends at `\n` or `\r\n`, and the last ending is
optional. -/
def linesFrom (line : Text) : Text → List Text
  | [] => if line = [] then [] else [line.reverse]
  | c :: s =>
    if c = '\n' then
      (match line with
       | '\r' :: l => l.reverse
       | l => l.reverse) :: linesFrom [] s
    else linesFrom (c :: line) s

def lines (s : Text) : List Text := linesFrom [] s

end Text

/-- `slice::get(a..b)`: `none` when the range is not inside the list. -/
def slice {α : Type} (l : List α) (a b : Nat) : Option (List α) :=
  if a ≤ b ∧ b ≤ l.length then some ((l.take b).drop a) else none

end Vai

import Vai.Text
/-!
# Ndjson — files of newline-ended records

A file as bytes, read the two ways the standard library reads lines: `BufRead::lines` (every line, the last one also
when its newline is missing) and `BufRead::read_line` at an offset.  A file that is a list of records, each ended by a
newline and none containing one, is read back record by record by both, at the offset where each was written.
-/
namespace Vai
namespace Ndjson

/-- `\n`. -/
def newline : UInt8 := 10

/-- `\r`. -/
def carriage : UInt8 := 13

/-- Records, each ended by a newline. -/
def unlines (ls : List Bytes) : Bytes := ls.flatMap (· ++ [newline])

/-- What `lines` keeps of a line ended by a newline, read backwards so far: a `\r` before the newline goes with it. -/
def stripCarriage : Bytes → Bytes
  | [] => []
  | b :: l => if b = carriage then l else b :: l

/-- `BufRead::lines`, before the lines are decoded, on the bytes left and the line read so far (backwards). -/
def linesFrom (line : Bytes) : Bytes → List Bytes
  | [] => if line = [] then [] else [line.reverse]
  | b :: s => if b = newline then (stripCarriage line).reverse :: linesFrom [] s else linesFrom (b :: line) s

def lines (s : Bytes) : List Bytes := linesFrom [] s

/-- The lines that are ended by a newline. -/
def completeFrom (line : Bytes) : Bytes → List Bytes
  | [] => []
  | b :: s => if b = newline then line.reverse :: completeFrom [] s else completeFrom (b :: line) s

def complete (s : Bytes) : List Bytes := completeFrom [] s

/-- `BufRead::read_line`: up to and with the first newline, or to the end. -/
def readLine : Bytes → Bytes
  | [] => []
  | b :: s => if b = newline then [b] else b :: readLine s

/-- A record that stands on one line and that `lines` returns unchanged. -/
def Plain (l : Bytes) : Prop := newline ∉ l ∧ carriage ∉ l

/-- Each record with the offset at which it starts. -/
def offsets (at' : Nat) : List Bytes → List (Nat × Bytes)
  | [] => []
  | l :: ls => (at', l) :: offsets (at' + l.length + 1) ls

@[simp] theorem unlines_nil : unlines [] = [] := rfl

@[simp] theorem unlines_cons (l : Bytes) (ls : List Bytes) : unlines (l :: ls) = l ++ newline :: unlines ls := by
  simp [unlines]

theorem unlines_append (ls ms : List Bytes) : unlines (ls ++ ms) = unlines ls ++ unlines ms := List.flatMap_append

theorem stripCarriage_reverse {l : Bytes} (h : carriage ∉ l) : (stripCarriage l.reverse).reverse = l := by
  have h' : carriage ∉ l.reverse := by simpa using h
  cases hr : l.reverse with
  | nil => simp_all [stripCarriage]
  | cons b r =>
    rw [hr] at h'
    have hb : b ≠ carriage := fun hb => h' (by simp [hb])
    rw [stripCarriage, if_neg hb, ← hr, List.reverse_reverse]

theorem linesFrom_record : ∀ (l line : Bytes) (s : Bytes), newline ∉ l →
    linesFrom line (l ++ newline :: s) = (stripCarriage (l.reverse ++ line)).reverse :: linesFrom [] s
  | [], line, s, _ => by simp [linesFrom]
  | b :: l, line, s, h => by
    simp only [List.mem_cons, not_or] at h
    rw [List.cons_append, linesFrom, if_neg (Ne.symm h.1), linesFrom_record l (b :: line) s h.2]
    simp

theorem completeFrom_record : ∀ (l line : Bytes) (s : Bytes), newline ∉ l →
    completeFrom line (l ++ newline :: s) = (l.reverse ++ line).reverse :: completeFrom [] s
  | [], line, s, _ => by simp [completeFrom]
  | b :: l, line, s, h => by
    simp only [List.mem_cons, not_or] at h
    rw [List.cons_append, completeFrom, if_neg (Ne.symm h.1), completeFrom_record l (b :: line) s h.2]
    simp

theorem linesFrom_tail : ∀ (p line : Bytes), newline ∉ p →
    linesFrom line p = if line = [] ∧ p = [] then [] else [line.reverse ++ p]
  | [], line, _ => by simp [linesFrom]
  | b :: p, line, h => by
    simp only [List.mem_cons, not_or] at h
    rw [linesFrom, if_neg (Ne.symm h.1), linesFrom_tail p (b :: line) h.2]
    simp

theorem completeFrom_tail : ∀ (p line : Bytes), newline ∉ p → completeFrom line p = []
  | [], _, _ => rfl
  | b :: p, line, h => by
    simp only [List.mem_cons, not_or] at h
    rw [completeFrom, if_neg (Ne.symm h.1), completeFrom_tail p (b :: line) h.2]

/-- **All the lines of a file of records**, and of one whose last line is unfinished. -/
theorem lines_unlines_append {p : Bytes} (hp : newline ∉ p) : ∀ {ls : List Bytes}, (∀ l ∈ ls, Plain l) →
    lines (unlines ls ++ p) = ls ++ (if p = [] then [] else [p])
  | [], _ => by
    rw [unlines_nil, List.nil_append, lines, linesFrom_tail p [] hp]
    simp
  | l :: ls, h => by
    have hl := h l List.mem_cons_self
    have ih := lines_unlines_append hp (fun m hm => h m (List.mem_cons_of_mem l hm))
    unfold lines at ih ⊢
    rw [unlines_cons, List.append_assoc, List.cons_append, linesFrom_record l [] _ hl.1, ih, List.append_nil,
      stripCarriage_reverse hl.2]
    rfl

theorem lines_unlines {ls : List Bytes} (h : ∀ l ∈ ls, Plain l) : lines (unlines ls) = ls := by
  have := lines_unlines_append (p := []) List.not_mem_nil h
  simpa using this

/-- **The complete lines of a file of records**: an unfinished last line is not one of them. -/
theorem complete_unlines_append {p : Bytes} (hp : newline ∉ p) : ∀ {ls : List Bytes}, (∀ l ∈ ls, Plain l) →
    complete (unlines ls ++ p) = ls
  | [], _ => completeFrom_tail p [] hp
  | l :: ls, h => by
    have ih := complete_unlines_append hp (fun m hm => h m (List.mem_cons_of_mem l hm))
    unfold complete at ih ⊢
    rw [unlines_cons, List.append_assoc, List.cons_append, completeFrom_record l [] _ (h l List.mem_cons_self).1, ih]
    simp

theorem complete_unlines {ls : List Bytes} (h : ∀ l ∈ ls, Plain l) : complete (unlines ls) = ls := by
  have := complete_unlines_append (p := []) List.not_mem_nil h
  rwa [List.append_nil] at this

theorem readLine_record : ∀ (l s : Bytes), newline ∉ l → readLine (l ++ newline :: s) = l ++ [newline]
  | [], _, _ => by simp [readLine]
  | b :: l, s, h => by
    simp only [List.mem_cons, not_or] at h
    rw [List.cons_append, readLine, if_neg (Ne.symm h.1), readLine_record l s h.2]
    rfl

theorem readLine_drop : ∀ {ls : List Bytes} {n o : Nat} {l : Bytes} (front back : Bytes), (∀ l ∈ ls, Plain l) →
    front.length = n → (o, l) ∈ offsets n ls →
      readLine ((front ++ unlines ls ++ back).drop o) = l ++ [newline]
  | m :: ls, n, o, l, front, back, h, hn, hm => by
    rw [offsets, List.mem_cons] at hm
    rcases hm with hm | hm
    · cases hm
      rw [← hn, List.append_assoc, List.drop_left, unlines_cons, List.append_assoc, List.cons_append,
        readLine_record m _ (h m List.mem_cons_self).1]
    · have e : front ++ unlines (m :: ls) ++ back = (front ++ (m ++ [newline])) ++ unlines ls ++ back := by simp
      have hl : (front ++ (m ++ [newline])).length = n + m.length + 1 := by simp [hn]; omega
      rw [e]
      exact readLine_drop _ _ (fun k hk => h k (List.mem_cons_of_mem m hk)) hl hm

/-- **A record is read back at the offset where it starts**, whatever is written after it. -/
theorem readLine_offset {ls : List Bytes} {o : Nat} {l : Bytes} (back : Bytes) (h : ∀ l ∈ ls, Plain l)
    (hm : (o, l) ∈ offsets 0 ls) : readLine ((unlines ls ++ back).drop o) = l ++ [newline] :=
  readLine_drop [] back h rfl hm

end Ndjson
end Vai

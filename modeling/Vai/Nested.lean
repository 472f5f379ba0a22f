import Vai.Edits
/-!
# Nested — replacing ranges one at a time, from the back

A buffer is spliced at ranges that were found in the list it started as.  From the back that is sound while the ranges
are apart: what a splice moves lies behind everything still to come.  Where they are nested, an inner splice moves the
end of the range around it.

`fromBack_eq_iff`: the outcome is the list with its outermost ranges replaced, element for element, exactly when the
inner splices of every outermost range bring its end back to where it was.
-/
namespace Vai
namespace Edit

variable {α β : Type}

/-- `none` is a range that is not inside the buffer. -/
def put (buf : List α) (e : Edit α) : Option (List α) :=
  if e.start ≤ e.stop ∧ e.stop ≤ buf.length then some (buf.take e.start ++ e.new ++ buf.drop e.stop) else none

/-- One splice after another, the last edit of the list first. -/
def fromBack (base : List α) : List (Edit α) → Option (List α)
  | [] => some base
  | e :: l => (fromBack base l).bind (put · e)

theorem put_eq_some {buf out : List α} {e : Edit α} :
    put buf e = some out ↔
      (e.start ≤ e.stop ∧ e.stop ≤ buf.length) ∧ buf.take e.start ++ e.new ++ buf.drop e.stop = out := by
  unfold put
  split <;> simp_all

theorem fromBack_cons_eq_some {base out : List α} {e : Edit α} {l : List (Edit α)} :
    fromBack base (e :: l) = some out ↔ ∃ buf, fromBack base l = some buf ∧ put buf e = some out := by
  rw [fromBack, Option.bind_eq_some_iff]

theorem fromBack_append (base : List α) : ∀ a b : List (Edit α),
    fromBack base (a ++ b) = (fromBack base b).bind (fun buf => fromBack buf a)
  | [], b => by
    rw [List.nil_append]
    cases fromBack base b <;> rfl
  | e :: a, b => by
    rw [List.cons_append, fromBack, fromBack_append base a b, Option.bind_assoc]
    rfl

theorem foldlM_put : ∀ (l : List (Edit α)) (base : List α), l.foldlM put base = fromBack base l.reverse
  | [], _ => rfl
  | e :: l, base => by
    rw [List.foldlM_cons, List.reverse_cons, fromBack_append]
    change (put base e).bind (fun buf => l.foldlM put buf) = (put base e).bind (fun buf => fromBack buf l.reverse)
    congr 1
    funext buf
    exact foldlM_put l buf

theorem take_fromBack {base : List α} {k : Nat} (hk : k ≤ base.length) : ∀ {l : List (Edit α)} {out : List α},
    (∀ e ∈ l, k ≤ e.start) → fromBack base l = some out → out.take k = base.take k ∧ k ≤ out.length
  | [], out, _, h => by
    cases h
    exact ⟨rfl, hk⟩
  | e :: l, out, hl, h => by
    obtain ⟨buf, hbuf, hput⟩ := fromBack_cons_eq_some.1 h
    obtain ⟨htake, hlen⟩ := take_fromBack hk (fun x hx => hl x (List.mem_cons_of_mem _ hx)) hbuf
    obtain ⟨⟨h1, h2⟩, rfl⟩ := put_eq_some.1 hput
    have hke := hl e List.mem_cons_self
    constructor
    · rw [List.append_assoc, List.take_append_of_le_length (by simp; omega), List.take_take, min_eq_left hke, htake]
    · simp
      omega

theorem subperm_fromBack {base : List α} : ∀ {l : List (Edit α)} {out : List α}, fromBack base l = some out →
    List.Subperm out (base ++ added l)
  | [], out, h => by
    cases h
    rw [added, List.flatMap_nil, List.append_nil]
  | e :: l, out, h => by
    obtain ⟨buf, hbuf, hput⟩ := fromBack_cons_eq_some.1 h
    obtain ⟨⟨h1, h2⟩, rfl⟩ := put_eq_some.1 hput
    have hkept : List.Subperm (buf.take e.start ++ buf.drop e.stop) buf := by
      have hs : List.Sublist (buf.take e.start ++ buf.drop e.stop) (buf.take e.start ++ buf.drop e.start) :=
        (List.Sublist.refl _).append (List.drop_sublist_drop_left buf h1)
      rw [List.take_append_drop] at hs
      exact hs.subperm
    have hperm : (buf.take e.start ++ e.new ++ buf.drop e.stop).Perm (e.new ++ (buf.take e.start ++ buf.drop e.stop)) := by
      rw [← List.append_assoc]
      exact List.perm_append_comm.append_right _
    have hgoal : (base ++ added (e :: l)).Perm (e.new ++ (base ++ added l)) := by
      unfold added
      rw [List.flatMap_cons, ← List.append_assoc, ← List.append_assoc]
      exact List.perm_append_comm.append_right _
    refine hperm.subperm.trans (List.Subperm.trans ?_ hgoal.symm.subperm)
    exact (List.subperm_append_left _).2 (hkept.trans (subperm_fromBack hbuf))

/-! ## Where the end of a range goes -/

/-- Where a place of the buffer is after the splices before it; `none` when one of them reaches past it. -/
def endAfter (stop : Nat) : List (Edit α) → Option Nat
  | [] => some stop
  | e :: l => (endAfter stop l).bind fun r => if e.stop ≤ r then some (r - (e.stop - e.start) + e.new.length) else none

theorem endAfter_cons_eq_some {stop r : Nat} {e : Edit α} {l : List (Edit α)} :
    endAfter stop (e :: l) = some r ↔
      ∃ q, endAfter stop l = some q ∧ e.stop ≤ q ∧ q - (e.stop - e.start) + e.new.length = r := by
  rw [endAfter, Option.bind_eq_some_iff]
  constructor
  · rintro ⟨q, hq, hr⟩
    split at hr
    · exact ⟨q, hq, by assumption, by simpa using hr⟩
    · cases hr
  · rintro ⟨q, hq, h1, h2⟩
    exact ⟨q, hq, by rw [if_pos h1, h2]⟩

theorem fromBack_of_endAfter {P Q : List α} {s : Nat} (hs : s ≤ P.length) : ∀ {l : List (Edit α)} {r : Nat},
    (∀ e ∈ l, s ≤ e.start ∧ e.start ≤ e.stop) → endAfter P.length l = some r →
    ∃ P', fromBack (P ++ Q) l = some (P' ++ Q) ∧ P'.length = r ∧ P'.take s = P.take s
  | [], r, _, h => by
    cases h
    exact ⟨P, rfl, rfl, rfl⟩
  | e :: l, r, hl, h => by
    obtain ⟨q, hq, hle, hr⟩ := endAfter_cons_eq_some.1 h
    obtain ⟨P', hrun, hlen, htake⟩ := fromBack_of_endAfter hs (fun x hx => hl x (List.mem_cons_of_mem _ hx)) hq
    obtain ⟨h1, h2⟩ := hl e List.mem_cons_self
    refine ⟨P'.take e.start ++ e.new ++ P'.drop e.stop, fromBack_cons_eq_some.2 ⟨_, hrun, put_eq_some.2 ⟨?_, ?_⟩⟩, ?_, ?_⟩
    · rw [List.length_append]
      omega
    · rw [List.take_append_of_le_length (by omega), List.drop_append_of_le_length (by omega)]
      simp
    · simp
      omega
    · rw [List.append_assoc, List.take_append_of_le_length (by simp; omega), List.take_take, min_eq_left h1, htake]

/-- What splices before a place make of a buffer: something in front, made of what was there and of what they put in, and
a rest of what was behind the place, all of it only if none reached past the place. -/
theorem front_and_rest {P Q : List α} : ∀ {l : List (Edit α)} {out : List α},
    l.Pairwise (fun a b => a.start < b.start) → (∀ e ∈ l, e.start ≤ P.length) → fromBack (P ++ Q) l = some out →
    ∃ P' k, out = P' ++ Q.drop k ∧ k ≤ Q.length ∧ (∀ x ∈ P', x ∈ P ∨ x ∈ added l) ∧
      (∀ s ≤ P.length, (∀ e ∈ l, s ≤ e.start) → s ≤ P'.length) ∧ (k = 0 → endAfter P.length l = some P'.length)
  | [], out, _, _, h => by
    cases h
    exact ⟨P, 0, rfl, Nat.zero_le _, fun x hx => .inl hx, fun s hs _ => hs, fun _ => rfl⟩
  | e :: l, out, hp, hl, h => by
    obtain ⟨he, hp⟩ := List.pairwise_cons.1 hp
    obtain ⟨buf, hbuf, hput⟩ := fromBack_cons_eq_some.1 h
    obtain ⟨P', k, rfl, hk, hin, hlen, hend⟩ := front_and_rest hp (fun x hx => hl x (List.mem_cons_of_mem _ hx)) hbuf
    obtain ⟨⟨h1, h2⟩, rfl⟩ := put_eq_some.1 hput
    have hstart : e.start ≤ P'.length := hlen e.start (hl e List.mem_cons_self) fun x hx => (he x hx).le
    have hadded : ∀ x, x ∈ P' → x ∈ P ∨ x ∈ added (e :: l) := fun x hx =>
      (hin x hx).imp_right fun h => by rw [added, List.flatMap_cons]; exact List.mem_append_right _ h
    have hnew : ∀ x ∈ e.new, x ∈ added (e :: l) := fun x hx => by
      rw [added, List.flatMap_cons]
      exact List.mem_append_left _ hx
    rw [List.length_append, List.length_drop] at h2
    by_cases hstop : e.stop ≤ P'.length
    · refine ⟨P'.take e.start ++ e.new ++ P'.drop e.stop, k, ?_, hk, fun x hx => ?_, fun s hs hsl => ?_, fun hk0 => ?_⟩
      · rw [List.take_append_of_le_length hstart, List.drop_append_of_le_length hstop]
        simp
      · rcases List.mem_append.1 hx with hx | hx
        · rcases List.mem_append.1 hx with hx | hx
          · exact hadded x (List.mem_of_mem_take hx)
          · exact .inr (hnew x hx)
        · exact hadded x (List.mem_of_mem_drop hx)
      · have := hsl e List.mem_cons_self
        simp
        omega
      · refine endAfter_cons_eq_some.2 ⟨_, hend hk0, hstop, ?_⟩
        simp
        omega
    · -- the splice reaches past the place, and takes some of what is behind it
      refine ⟨P'.take e.start ++ e.new, k + (e.stop - P'.length), ?_, by omega, fun x hx => ?_, fun s hs hsl => ?_,
        fun hk0 => absurd hk0 (by omega)⟩
      · rw [List.take_append_of_le_length hstart, List.drop_append, List.drop_of_length_le (by omega), List.nil_append,
          List.drop_drop]
      · rcases List.mem_append.1 hx with hx | hx
        · exact hadded x (List.mem_of_mem_take hx)
        · exact .inr (hnew x hx)
      · have := hsl e List.mem_cons_self
        simp
        omega

/-! ## The outermost ranges -/

/-- Ranges in the order of their starts, none empty; of two the later is inside the earlier or after it. -/
def Nested (len : Nat) (l : List (Edit α)) : Prop :=
  (∀ e ∈ l, e.start < e.stop ∧ e.stop ≤ len) ∧
    l.Pairwise (fun a b => a.start < b.start ∧ (b.stop ≤ a.stop ∨ a.stop ≤ b.start))

def Inside (a b : Edit α) : Prop := b.start < a.start ∧ a.stop ≤ b.stop

instance (a b : Edit α) : Decidable (Inside a b) := inferInstanceAs (Decidable (_ ∧ _))

def outermost (l : List (Edit α)) : List (Edit α) := l.filter (fun e => ∀ f ∈ l, ¬ Inside e f)

def inner (l : List (Edit α)) (e : Edit α) : List (Edit α) := l.filter (fun f => Inside f e)

/-- The inner splices of every outermost range bring its end back to where it was. -/
def Steady (l : List (Edit α)) : Prop := ∀ e ∈ outermost l, endAfter e.stop (inner l e) = some e.stop

theorem Nested.tail {len : Nat} {e : Edit α} {l : List (Edit α)} (h : Nested len (e :: l)) : Nested len l :=
  ⟨fun x hx => h.1 x (List.mem_cons_of_mem _ hx), (List.pairwise_cons.1 h.2).2⟩

theorem Nested.right {len : Nat} {a b : List (Edit α)} (h : Nested len (a ++ b)) : Nested len b :=
  ⟨fun x hx => h.1 x (List.mem_append_right _ hx), (List.pairwise_append.1 h.2).2.1⟩

/-- Edits in the order of their starts, up to a place and from it. -/
theorem split_at (k : Nat) : ∀ {l : List (Edit α)}, l.Pairwise (fun a b => a.start < b.start) →
    ∃ a b, l = a ++ b ∧ (∀ e ∈ a, e.start < k) ∧ ∀ e ∈ b, k ≤ e.start
  | [], _ => ⟨[], [], rfl, by simp, by simp⟩
  | e :: l, h => by
    obtain ⟨he, h⟩ := List.pairwise_cons.1 h
    by_cases hk : e.start < k
    · obtain ⟨a, b, rfl, ha, hb⟩ := split_at k h
      exact ⟨e :: a, b, rfl, List.forall_mem_cons.2 ⟨hk, ha⟩, hb⟩
    · refine ⟨[], e :: l, rfl, by simp, List.forall_mem_cons.2 ⟨by omega, fun x hx => ?_⟩⟩
      have := he x hx
      omega

/-- A first range, what is inside it, and what comes after it. -/
structure Block (len : Nat) (e : Edit α) (ins later : List (Edit α)) : Prop where
  nested : Nested len (e :: (ins ++ later))
  inside : ∀ f ∈ ins, Inside f e
  after : ∀ f ∈ later, e.stop ≤ f.start

theorem Nested.block {len : Nat} {e : Edit α} {l : List (Edit α)} (h : Nested len (e :: l)) :
    ∃ ins later, l = ins ++ later ∧ Block len e ins later := by
  obtain ⟨he, hl⟩ := List.pairwise_cons.1 h.2
  obtain ⟨a, b, rfl, ha, hb⟩ := split_at e.stop (hl.imp And.left)
  refine ⟨a, b, rfl, h, fun f hf => ?_, hb⟩
  have hf' := he f (List.mem_append_left _ hf)
  have := ha f hf
  exact ⟨hf'.1, by omega⟩

namespace Block

variable {len : Nat} {e : Edit α} {ins later : List (Edit α)} (h : Block len e ins later)

include h

theorem first : e.start < e.stop ∧ e.stop ≤ len := h.nested.1 e List.mem_cons_self

theorem rest : Nested len later := h.nested.tail.right

theorem ordered : ins.Pairwise (fun a b => a.start < b.start) :=
  (List.pairwise_append.1 h.nested.tail.2).1.imp And.left

theorem range_ins {f : Edit α} (hf : f ∈ ins) : f.start < f.stop :=
  (h.nested.1 f (List.mem_cons_of_mem _ (List.mem_append_left _ hf))).1

theorem not_inside {f g : Edit α} (hf : f ∈ e :: ins) (hg : g ∈ later) : ¬ Inside g f := by
  have h1 := h.after g hg
  have h2 := (h.rest.1 g hg).1
  have h3 : f.stop ≤ e.stop := by
    rcases List.mem_cons.1 hf with rfl | hf
    · exact le_rfl
    · exact (h.inside f hf).2
  unfold Inside
  omega

theorem outermost_eq : outermost (e :: (ins ++ later)) = e :: outermost later := by
  have he : ∀ f ∈ e :: (ins ++ later), ¬ Inside e f := by
    intro f hf hin
    rcases List.mem_cons.1 hf with rfl | hf
    · exact absurd hin.1 (lt_irrefl _)
    · have := ((List.pairwise_cons.1 h.nested.2).1 f hf).1
      have := hin.1
      omega
  unfold outermost
  rw [List.filter_cons_of_pos (by simpa using he), List.filter_append]
  have hins : ins.filter (fun x => ∀ f ∈ e :: (ins ++ later), ¬ Inside x f) = [] := by
    refine List.filter_eq_nil_iff.2 fun f hf => ?_
    simp only [decide_eq_true_eq]
    exact fun hall => hall e List.mem_cons_self (h.inside f hf)
  rw [hins, List.nil_append]
  congr 1
  refine List.filter_congr fun g hg => decide_eq_decide.2 ⟨fun hall f hf => ?_, fun hall f hf => ?_⟩
  · exact hall f (List.mem_cons_of_mem _ (List.mem_append_right _ hf))
  · rcases List.mem_cons.1 hf with rfl | hf
    · exact h.not_inside List.mem_cons_self hg
    · rcases List.mem_append.1 hf with hf | hf
      · exact h.not_inside (List.mem_cons_of_mem _ hf) hg
      · exact hall f hf

theorem inner_eq : inner (e :: (ins ++ later)) e = ins := by
  unfold inner
  have hself : ¬ Inside e e := fun hin => absurd hin.1 (lt_irrefl _)
  rw [List.filter_cons_of_neg (by simpa using hself), List.filter_append]
  have h1 : ins.filter (fun f => Inside f e) = ins := List.filter_eq_self.2 fun f hf => by simpa using h.inside f hf
  have h2 : later.filter (fun f => Inside f e) = [] :=
    List.filter_eq_nil_iff.2 fun f hf => by simpa using h.not_inside List.mem_cons_self hf
  rw [h1, h2, List.append_nil]

theorem inner_later {g : Edit α} (hg : g ∈ later) : inner (e :: (ins ++ later)) g = inner later g := by
  have hno : ∀ f ∈ e :: ins, ¬ Inside f g := by
    intro f hf hin
    have h1 := h.after g hg
    have h2 := hin.1
    rcases List.mem_cons.1 hf with rfl | hf
    · have := h.first
      omega
    · have h3 := h.range_ins hf
      have h4 := (h.inside f hf).2
      omega
  unfold inner
  rw [← List.cons_append, List.filter_append, List.filter_eq_nil_iff.2 fun f hf => by simpa using hno f hf,
    List.nil_append]

theorem steady_iff : Steady (e :: (ins ++ later)) ↔ endAfter e.stop ins = some e.stop ∧ Steady later := by
  unfold Steady
  rw [h.outermost_eq, List.forall_mem_cons, h.inner_eq]
  refine and_congr_right fun _ => forall₂_congr fun g hg => ?_
  rw [h.inner_later (List.mem_of_mem_filter hg)]

theorem simultaneous_eq {base : List α} (hlen : base.length = len) :
    simultaneous base (outermost (e :: (ins ++ later))) =
      base.take e.start ++ (e.new ++ simultaneousFrom base (outermost later) e.stop) := by
  have hf := h.first
  have hafter : ∀ x ∈ outermost later, e.stop ≤ x.start := fun x hx => h.after x (List.mem_of_mem_filter hx)
  rw [h.outermost_eq]
  unfold simultaneous
  rw [simultaneousFrom_before e.start (by omega) (List.forall_mem_cons.2 ⟨le_rfl, fun x hx => by
    have := hafter x hx; omega⟩) e.start 0 (by omega), List.drop_zero,
    simultaneousFrom_replacement hf.1 (by omega) hafter]

theorem simultaneous_later {base : List α} (hlen : base.length = len) :
    simultaneous base (outermost later) = base.take e.stop ++ simultaneousFrom base (outermost later) e.stop := by
  have hf := h.first
  have hafter : ∀ x ∈ outermost later, e.stop ≤ x.start := fun x hx => h.after x (List.mem_of_mem_filter hx)
  unfold simultaneous
  rw [simultaneousFrom_before e.stop (by omega) hafter e.stop 0 (by omega), List.drop_zero]

end Block

/-- Outermost ranges are apart. -/
theorem Nested.apart {len : Nat} {l : List (Edit α)} (h : Nested len l) :
    (outermost l).Pairwise (fun a b => a.stop ≤ b.start) := by
  have hpair : (outermost l).Pairwise (fun a b => a.start < b.start ∧ (b.stop ≤ a.stop ∨ a.stop ≤ b.start)) :=
    h.2.sublist List.filter_sublist
  refine hpair.imp_of_mem fun {a b} ha hb hab => hab.2.resolve_left fun hin => ?_
  have hnot : ∀ f ∈ l, ¬ Inside b f := by simpa using (List.mem_filter.1 hb).2
  exact hnot a (List.mem_of_mem_filter ha) ⟨hab.1, hin⟩

theorem Nested.outermost_within {len : Nat} {l : List (Edit α)} (h : Nested len l) : Within len (outermost l) := fun e he =>
  ⟨(h.1 e (List.mem_of_mem_filter he)).1.le, (h.1 e (List.mem_of_mem_filter he)).2⟩

theorem exists_outermost {l : List (Edit α)} : ∀ (n : Nat) {f : Edit α}, f ∈ l → f.start ≤ n →
    ∃ g ∈ outermost l, g.start ≤ f.start ∧ f.stop ≤ g.stop
  | n, f, hf, hn => by
    by_cases hout : ∀ g ∈ l, ¬ Inside f g
    · exact ⟨f, List.mem_filter.2 ⟨hf, by simpa using hout⟩, le_rfl, le_rfl⟩
    · push Not at hout
      obtain ⟨g, hg, hin⟩ := hout
      have h1 := hin.1
      have h2 := hin.2
      cases n with
      | zero => omega
      | succ n =>
        obtain ⟨k, hk, h3, h4⟩ := exists_outermost n hg (by omega)
        exact ⟨k, hk, by omega, by omega⟩

/-- Elements that the list does not have come from the outermost edits. -/
theorem Nested.countP_simultaneous {base : List α} {l : List (Edit α)} (h : Nested base.length l) {p : α → Bool}
    (hp : base.countP p = 0) : (simultaneous base (outermost l)).countP p = (added (outermost l)).countP p := by
  have hcount : ∀ xs : List α, (xs.map p).count true = xs.countP p := fun xs => by
    rw [List.count_eq_countP, List.countP_map]
    congr 1
    funext x
    simp
  have hin : InRange base.length 0 (outermost l) :=
    (inRange_iff h.outermost_within (Nat.zero_le _)).2 ⟨fun _ _ => Nat.zero_le _, h.apart⟩
  have hs := splice_map p base (outermost l) 0
  rw [splice_eq_simultaneous h.outermost_within hin, Option.map_some] at hs
  have hw : Within (base.map p).length ((outermost l).map (map p)) := fun e he => by
    obtain ⟨f, hf, rfl⟩ := List.mem_map.1 he
    rw [List.length_map]
    exact h.outermost_within f hf
  have hc := count_splice true hw hs
  have hadd : added ((outermost l).map (map p)) = (added (outermost l)).map p := by
    unfold added map
    rw [List.flatMap_map, List.map_flatMap]
  have hremoved : (removed (base.map p) ((outermost l).map (map p))).count true = 0 := by
    refine List.count_eq_zero.2 fun hx => ?_
    obtain ⟨e, -, hx⟩ := List.mem_flatMap.1 hx
    obtain ⟨b, hb, hpb⟩ := List.mem_map.1 (List.mem_of_mem_take (List.mem_of_mem_drop hx))
    exact List.countP_eq_zero.1 hp b hb hpb
  rw [hremoved, List.drop_zero, hcount, hcount, hp, hadd, hcount] at hc
  simpa [simultaneous] using hc

/-! ## When the splices replace the outermost ranges -/

theorem simultaneousFrom_nil {base : List α} {k : Nat} (hk : k ≤ base.length) : simultaneousFrom base [] k = base.drop k := by
  have hb := @simultaneousFrom_before _ base [] base.length le_rfl (by simp) (base.length - k) k (by omega)
  have hend := @simultaneousFrom_step _ base [] _ le_rfl
  rw [simultaneousFrom_end, List.append_nil, around_before (by simp)] at hend
  rw [hb, hend]
  simp

/-- **Enough**: the ends come back, and every outermost range is replaced. -/
theorem fromBack_of_steady {base : List α} : ∀ {l : List (Edit α)}, Nested base.length l → Steady l →
    fromBack base l = some (simultaneous base (outermost l))
  | [], _, _ => by
    unfold simultaneous outermost
    rw [List.filter_nil, simultaneousFrom_nil (Nat.zero_le _), List.drop_zero, fromBack]
  | e :: l, hn, hs => by
    obtain ⟨ins, later, rfl, hb⟩ := hn.block
    obtain ⟨hend, hlater⟩ := hb.steady_iff.1 hs
    have hfirst := hb.first
    have ih := fromBack_of_steady hb.rest hlater
    rw [hb.simultaneous_later rfl] at ih
    have hlen : (base.take e.stop).length = e.stop := by
      rw [List.length_take]
      omega
    obtain ⟨P', hrun, hP', htake⟩ := fromBack_of_endAfter (P := base.take e.stop)
      (Q := simultaneousFrom base (outermost later) e.stop) (s := e.start) (by omega)
      (fun f hf => ⟨(hb.inside f hf).1.le, (hb.range_ins hf).le⟩) (by rw [hlen]; exact hend)
    refine fromBack_cons_eq_some.2 ⟨_, by rw [fromBack_append, ih]; exact hrun, put_eq_some.2 ⟨⟨hfirst.1.le, ?_⟩, ?_⟩⟩
    · rw [List.length_append]
      omega
    · rw [hb.simultaneous_eq rfl, List.take_append_of_le_length (by omega), htake, List.take_take, min_eq_left hfirst.1.le,
        List.drop_append, List.drop_of_length_le (by omega), hP', Nat.sub_self, List.drop_zero, List.nil_append,
        List.append_assoc]
termination_by l => l.length
decreasing_by simp [*]

/-- What the splices and the replacement of the outermost ranges have in common from a place on: its first element. -/
theorem head?_fromBack {base buf : List α} {k : Nat} {l : List (Edit α)} (hn : Nested base.length l)
    (hk : ∀ e ∈ l, k ≤ e.start) (hkl : k ≤ base.length) (hnew : ∀ e ∈ l, e.new ≠ []) (h : fromBack base l = some buf) :
    (buf.drop k).head? = (simultaneousFrom base (outermost l) k).head? := by
  cases l with
  | nil =>
    cases h
    unfold outermost
    rw [List.filter_nil, simultaneousFrom_nil hkl]
  | cons e l =>
    obtain ⟨ins, later, rfl, hb⟩ := hn.block
    have hfirst := hb.first
    have hke := hk e List.mem_cons_self
    obtain ⟨mid, hmid, hput⟩ := fromBack_cons_eq_some.1 h
    obtain ⟨⟨h1, h2⟩, rfl⟩ := put_eq_some.1 hput
    have htake := (take_fromBack (k := e.start) (by omega)
      (fun f hf => ((List.pairwise_cons.1 hn.2).1 f hf).1.le) hmid).1
    have hafter : ∀ x ∈ outermost later, e.stop ≤ x.start := fun x hx => hb.after x (List.mem_of_mem_filter hx)
    have hne : (base.take e.start).drop k ++ e.new ≠ [] := by
      simp [hnew e List.mem_cons_self]
    rw [hb.outermost_eq, simultaneousFrom_before e.start (by omega) (List.forall_mem_cons.2 ⟨le_rfl, fun x hx => by
      have := hafter x hx; omega⟩) (e.start - k) k (by omega), simultaneousFrom_replacement hfirst.1 hfirst.2 hafter,
      htake, List.append_assoc, List.drop_append_of_le_length (by rw [List.length_take]; omega), ← List.append_assoc,
      ← List.append_assoc, List.head?_append_of_ne_nil _ hne, List.head?_append_of_ne_nil _ hne]

/-- A rest of a list without repetitions that begins as the list does is the list. -/
theorem eq_of_drop_head? {l : List α} (hl : l.Nodup) {k : Nat} (h : (l.drop k).head? = l.head?) : l.drop k = l := by
  cases l with
  | nil => rw [List.drop_nil]
  | cons x l =>
    cases k with
    | zero => rfl
    | succ k =>
      rw [List.drop_succ_cons, List.head?_cons] at h
      exact absurd (List.mem_of_mem_drop (List.mem_of_mem_head? h)) (List.nodup_cons.1 hl).1

/-- **And needed**, where no element comes twice and no edit removes without putting something in: an end that does not
come back leaves something behind, or takes something away. -/
theorem steady_of_fromBack {base : List α} : ∀ {l : List (Edit α)}, Nested base.length l → (∀ e ∈ l, e.new ≠ []) →
    (base ++ added l).Nodup → fromBack base l = some (simultaneous base (outermost l)) → Steady l
  | [], _, _, _, _ => fun e he => absurd he (by simp [outermost])
  | e :: l, hn, hnew, hnodup, h => by
    obtain ⟨ins, later, rfl, hb⟩ := hn.block
    have hfirst := hb.first
    obtain ⟨bufI, hrunI, hput⟩ := fromBack_cons_eq_some.1 h
    rw [fromBack_append, Option.bind_eq_some_iff] at hrunI
    obtain ⟨bufL, hrunL, hrunI⟩ := hrunI
    obtain ⟨⟨h1, h2⟩, hout⟩ := put_eq_some.1 hput
    generalize hT : simultaneousFrom base (outermost later) e.stop = T
    have hlater : ∀ f ∈ later, e.stop ≤ f.start := hb.after
    have hnewL : ∀ f ∈ later, f.new ≠ [] := fun f hf =>
      hnew f (List.mem_cons_of_mem _ (List.mem_append_right _ hf))
    -- up to the end of the first range nothing has changed yet
    obtain ⟨htakeL, hlenL⟩ := take_fromBack hfirst.2 hlater hrunL
    obtain ⟨htakeI, hlenI⟩ := take_fromBack (k := e.start) (by omega) (fun f hf => (hb.inside f hf).1.le) hrunI
    have htake : bufI.take e.start = base.take e.start := by
      rw [htakeI, ← min_eq_left hfirst.1.le, ← List.take_take, htakeL, List.take_take]
    have hrest : bufI.drop e.stop = T := by
      rw [hb.simultaneous_eq rfl, htake, hT, List.append_assoc] at hout
      exact List.append_cancel_left (List.append_cancel_left hout)
    generalize hB : bufL.drop e.stop = B
    have hbufL : bufL = base.take e.stop ++ B := by
      rw [← htakeL, ← hB, List.take_append_drop]
    have hhead : B.head? = T.head? := by
      rw [← hB, ← hT]
      exact head?_fromBack hb.rest hlater hfirst.2 hnewL hrunL
    -- no element comes twice
    have hsubL := subperm_fromBack hrunL
    have hadded : added (e :: (ins ++ later)) = e.new ++ (added ins ++ added later) := by simp [added]
    rw [hadded] at hnodup
    have hnodupL : (base ++ added later).Nodup := by
      refine hnodup.sublist ((List.Sublist.refl base).append ?_)
      exact (List.sublist_append_right _ _).trans (List.sublist_append_right _ _)
    have hbufLnodup : bufL.Nodup := by
      obtain ⟨l', hperm, hsub⟩ := hsubL
      exact hperm.nodup_iff.1 (hnodupL.sublist hsub)
    have hBnodup : B.Nodup := by
      rw [← hB]
      exact hbufLnodup.sublist (List.drop_sublist _ _)
    have hlen : (base.take e.stop).length = e.stop := by
      rw [List.length_take]
      omega
    rw [hbufL] at hrunI
    obtain ⟨P', k, rfl, hk, hin, -, hend⟩ := front_and_rest hb.ordered (fun f hf => by
      have h3 := hb.inside f hf
      have h4 := hb.range_ins hf
      have h5 := h3.2
      omega) hrunI
    rw [List.length_append, List.length_drop] at h2
    -- nothing of the front is behind the end of the first range
    have hfront : P'.length ≤ e.stop := by
      by_contra hlt
      have hne : P'.drop e.stop ≠ [] := by
        rw [Ne, List.drop_eq_nil_iff]
        omega
      rw [List.drop_append_of_le_length (by omega)] at hrest
      obtain ⟨x, l', hx⟩ := List.exists_cons_of_ne_nil hne
      rw [← hrest, hx, List.cons_append, List.head?_cons] at hhead
      have hxB : x ∈ B := List.mem_of_mem_head? hhead
      have hxP : x ∈ P' := List.mem_of_mem_drop (by rw [hx]; exact List.mem_cons_self)
      rcases hin x hxP with h3 | h3
      · rw [hbufL] at hbufLnodup
        exact (List.nodup_append.1 hbufLnodup).2.2 x h3 x hxB rfl
      · have hxall : x ∈ base ++ added later := hsubL.subset (by rw [hbufL]; exact List.mem_append_right _ hxB)
        have h4 := List.nodup_append.1 hnodup
        have h5 := List.nodup_append.1 (List.nodup_append.1 h4.2.1).2.1
        rcases List.mem_append.1 hxall with h6 | h6
        · exact h4.2.2 x h6 x (List.mem_append_right _ (List.mem_append_left _ h3)) rfl
        · exact h5.2.2 x h3 x h6 rfl
    rw [List.drop_append, List.drop_of_length_le hfront, List.nil_append, List.drop_drop] at hrest
    have hall : B.drop (k + (e.stop - P'.length)) = B := eq_of_drop_head? hBnodup (by rw [hrest, hhead])
    have hcount := congrArg List.length hall
    rw [List.length_drop] at hcount
    have hend' := hend (by omega)
    rw [hlen, show P'.length = e.stop by omega] at hend'
    refine hb.steady_iff.2 ⟨hend', steady_of_fromBack hb.rest hnewL hnodupL ?_⟩
    rw [hb.simultaneous_later rfl, hrunL, hbufL, hT, ← hrest, hall]
termination_by l => l.length
decreasing_by simp [*]

theorem fromBack_eq_iff {base : List α} {l : List (Edit α)} (hn : Nested base.length l) (hnew : ∀ e ∈ l, e.new ≠ [])
    (hnodup : (base ++ added l).Nodup) : fromBack base l = some (simultaneous base (outermost l)) ↔ Steady l :=
  ⟨steady_of_fromBack hn hnew hnodup, fromBack_of_steady hn⟩

end Edit
end Vai

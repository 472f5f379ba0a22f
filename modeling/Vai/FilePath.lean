import Vai.Text
/-!
# FilePath — paths between slashes

Paths of a POSIX file system as texts, and the absolute directories and files they lead to as lists of names, with `.`
and `..` resolved by name: there are no links.  `..` of the root is the root.

A relative path climbs some levels above its start and then goes down again (`climb`).  It stays inside a directory
exactly when it enters again every directory that it has climbed out of (`inside_iff`).
-/
namespace Vai
namespace FilePath

abbrev Name := List Char

def dot : Name := ['.']
def dotDot : Name := ['.', '.']

/-- What a directory can hold. -/
def isName (c : Name) : Bool := c ≠ [] ∧ '/' ∉ c ∧ c ≠ dot ∧ c ≠ dotDot

/-- The names of a path; empty ones and `.` lead nowhere. -/
def components (s : Text) : List Name := (s.splitOn '/').filter (fun c => c ≠ [] ∧ c ≠ dot)

/-- `join("/")`. -/
def joinNames (names : List Name) : Text := ['/'].intercalate names

def isAbsolute (s : Text) : Bool := s.head? = some '/'

/-- One name further. -/
def step (dir : List Name) (c : Name) : List Name := if c = dotDot then dir.dropLast else dir ++ [c]

def walk (dir : List Name) (cs : List Name) : List Name := cs.foldl step dir

/-- Where a path leads from a directory; an absolute one starts at the root. -/
def resolve (dir : List Name) (s : Text) : List Name := walk (if isAbsolute s then [] else dir) (components s)

/-- A path in normal form: so many levels up, and then down these names. -/
structure Climb where
  ups : Nat
  names : List Name
deriving DecidableEq, Repr

def climbStep (c : Climb) (x : Name) : Climb :=
  if x = dotDot then if c.names = [] then ⟨c.ups + 1, []⟩ else ⟨c.ups, c.names.dropLast⟩
  else ⟨c.ups, c.names ++ [x]⟩

def climb (cs : List Name) : Climb := cs.foldl climbStep ⟨0, []⟩

/-- Where a climb leads. -/
def Climb.reach (c : Climb) (dir : List Name) : List Name := dir.take (dir.length - c.ups) ++ c.names

theorem climbStep_reach (c : Climb) (dir : List Name) (x : Name) :
    Climb.reach (climbStep c x) dir = step (Climb.reach c dir) x := by
  unfold climbStep step Climb.reach
  by_cases hx : x = dotDot
  · rw [if_pos hx, if_pos hx]
    by_cases hc : c.names = []
    · rw [if_pos hc, hc, List.append_nil, List.append_nil, List.dropLast_eq_take, List.take_take, List.length_take]
      congr 1
      show dir.length - (c.ups + 1) = _
      omega
    · rw [if_neg hc, List.dropLast_append_of_ne_nil hc]
  · rw [if_neg hx, if_neg hx, List.append_assoc]

theorem walk_climbed (dir : List Name) : ∀ (cs : List Name) (c : Climb),
    walk (Climb.reach c dir) cs = Climb.reach (cs.foldl climbStep c) dir
  | [], _ => rfl
  | x :: cs, c => by
    show walk (step (Climb.reach c dir) x) cs = Climb.reach (cs.foldl climbStep (climbStep c x)) dir
    rw [← climbStep_reach]
    exact walk_climbed dir cs (climbStep c x)

theorem walk_eq (dir cs : List Name) : walk dir cs = Climb.reach (climb cs) dir := by
  have hstart : Climb.reach ⟨0, []⟩ dir = dir := by simp [Climb.reach]
  have h := walk_climbed dir cs ⟨0, []⟩
  rw [hstart] at h
  exact h

theorem walk_append (dir cs cs' : List Name) : walk dir (cs ++ cs') = walk (walk dir cs) cs' := List.foldl_append

/-- A path stays inside a directory exactly when it enters again what it has climbed out of. -/
theorem inside_iff {dir cs : List Name} :
    dir <+: walk dir cs ↔ dir.drop (dir.length - (climb cs).ups) <+: (climb cs).names := by
  have hdir := List.take_append_drop (dir.length - (climb cs).ups) dir
  rw [walk_eq]
  unfold Climb.reach
  constructor
  · intro h
    rw [← List.prefix_append_right_inj (dir.take (dir.length - (climb cs).ups)), hdir]
    exact h
  · intro h
    have := (List.prefix_append_right_inj (dir.take (dir.length - (climb cs).ups))).2 h
    rw [hdir] at this
    exact this

/-! ## Components -/

theorem components_append (s s' : Text) : components (s ++ '/' :: s') = components s ++ components s' := by
  unfold components
  rw [List.splitOn_append_cons_self, List.filter_append]

theorem components_name {c : Name} (hslash : '/' ∉ c) (hempty : c ≠ []) (hdot : c ≠ dot) : components c = [c] := by
  unfold components
  rw [List.splitOn_eq_singleton hslash]
  simp [hempty, hdot]

theorem walk_names (dir : List Name) : ∀ {cs : List Name}, dotDot ∉ cs → walk dir cs = dir ++ cs
  | [], _ => (List.append_nil dir).symm
  | c :: cs, h => by
    rw [List.mem_cons, not_or] at h
    show walk (step dir c) cs = _
    rw [step, if_neg (Ne.symm h.1), walk_names (dir ++ [c]) h.2, List.append_assoc]
    rfl

/-- A relative path without `..` goes down. -/
theorem resolve_of_plain {s : Text} (hrel : isAbsolute s = false) (h : dotDot ∉ components s) (dir : List Name) :
    resolve dir s = dir ++ components s := by
  unfold resolve
  rw [hrel]
  exact walk_names dir h

theorem isName_iff {c : Name} : isName c = true ↔ c ≠ [] ∧ '/' ∉ c ∧ c ≠ dot ∧ c ≠ dotDot := by
  unfold isName
  rw [decide_eq_true_iff]

theorem components_joinNames {names : List Name} (h : ∀ c ∈ names, isName c = true) :
    components (joinNames names) = names := by
  by_cases hn : names = []
  · rw [hn]
    rfl
  · unfold components joinNames
    rw [List.splitOn_intercalate '/' (fun c hc => (isName_iff.1 (h c hc)).2.1) hn, List.filter_eq_self]
    intro c hc
    have := isName_iff.1 (h c hc)
    simp [this.1, this.2.2.1]

theorem joinNames_cons (c : Name) {cs : List Name} (h : cs ≠ []) : joinNames (c :: cs) = c ++ '/' :: joinNames cs := by
  cases cs with
  | nil => exact absurd rfl h
  | cons d cs => simp [joinNames, List.intercalate_cons_cons]

theorem isAbsolute_joinNames {names : List Name} (h : ∀ c ∈ names, isName c = true) :
    isAbsolute (joinNames names) = false := by
  unfold isAbsolute joinNames
  rw [decide_eq_false_iff_not]
  cases names with
  | nil => exact fun he => by cases he
  | cons c names =>
    obtain ⟨hne, hslash, -⟩ := isName_iff.1 (h c List.mem_cons_self)
    cases c with
    | nil => exact absurd rfl hne
    | cons x c =>
      intro he
      have hx : (['/'].intercalate ((x :: c) :: names)).head? = some x := by
        cases names <;> rfl
      rw [hx] at he
      exact hslash (Option.some.inj he ▸ List.mem_cons_self)

/-- Names that are joined lead back to where they were taken from. -/
theorem resolve_joinNames {names : List Name} (h : ∀ c ∈ names, isName c = true) (dir : List Name) :
    resolve dir (joinNames names) = dir ++ names := by
  have hcs := components_joinNames h
  have hdots : dotDot ∉ components (joinNames names) := by
    rw [hcs]
    exact fun hmem => (isName_iff.1 (h _ hmem)).2.2.2 rfl
  rw [resolve_of_plain (isAbsolute_joinNames h) hdots, hcs]

/-- The path is spelled as the names that it goes through. -/
def isPlain (s : Text) : Bool := s = joinNames (components s) ∧ components s ≠ [] ∧ ∀ c ∈ components s, isName c = true

theorem isPlain_iff {s : Text} : isPlain s = true ↔ s = joinNames (components s) ∧ components s ≠ [] ∧
    ∀ c ∈ components s, isName c = true := by
  unfold isPlain
  rw [decide_eq_true_iff]

theorem isPlain_joinNames {names : List Name} (h : ∀ c ∈ names, isName c = true) (hne : names ≠ []) :
    isPlain (joinNames names) = true := by
  rw [isPlain_iff, components_joinNames h]
  exact ⟨rfl, hne, h⟩

theorem resolve_of_isPlain {s : Text} (h : isPlain s = true) (dir : List Name) : resolve dir s = dir ++ components s := by
  obtain ⟨hs, -, hnames⟩ := isPlain_iff.1 h
  conv_lhs => rw [hs]
  exact resolve_joinNames hnames dir

/-! ## Paths that stay -/

/-- An absolute path names the directory; a relative one enters again what it climbs out of. -/
def Stays (dir : List Name) (s : Text) : Prop :=
  if isAbsolute s then dir <+: (climb (components s)).names
  else dir.drop (dir.length - (climb (components s)).ups) <+: (climb (components s)).names

instance (dir : List Name) (s : Text) : Decidable (Stays dir s) :=
  inferInstanceAs (Decidable (if isAbsolute s then dir <+: (climb (components s)).names
    else dir.drop (dir.length - (climb (components s)).ups) <+: (climb (components s)).names))

theorem stays_iff {dir : List Name} {s : Text} : Stays dir s ↔ dir <+: resolve dir s := by
  unfold Stays resolve
  cases isAbsolute s with
  | true =>
    rw [if_pos rfl, if_pos rfl, walk_eq]
    unfold Climb.reach
    rw [List.take_nil, List.nil_append]
  | false =>
    rw [if_neg (by decide), if_neg (by decide), inside_iff]

end FilePath
end Vai

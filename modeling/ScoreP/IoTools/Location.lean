import ScoreP.Foundations.Separated

/-!
# What a path denotes

`location` resolves a path lexically, component by component. `cancel` is what the second loop of
`UTILS_IO_SimplifyPath` does to the components, from the last to the first: it counts the ".." that wait
for a name and drops what cancels out. `cancel_sound` says that this leads to the same place.
-/

namespace ScoreP.IoTools

open Foundations List

abbrev Name := List Char

def dot : Name := ['.']

def dots : Name := ['.', '.']

/-- The names from the last to the first; `ups` steps lead above the start of a relative path. -/
structure Location where
  absolute : Bool
  ups : ℕ
  names : List Name
deriving DecidableEq

namespace Location

variable {l : Location} {name : Name} {cs ds : List Name}

def up (l : Location) : Location :=
  match l.names with
  | _ :: names => { l with names := names }
  | [] => if l.absolute then l else { l with ups := l.ups + 1 }

def enter (l : Location) (component : Name) : Location :=
  if component = [] ∨ component = dot then l
  else if component = dots then l.up
  else { l with names := component :: l.names }

def walk (l : Location) (components : List Name) : Location :=
  components.foldl enter l

@[simp] theorem walk_nil : l.walk [] = l :=
  rfl

@[simp] theorem walk_cons : l.walk (name :: cs) = (l.enter name).walk cs :=
  rfl

@[simp] theorem walk_append : l.walk (cs ++ ds) = (l.walk cs).walk ds :=
  foldl_append

@[simp] theorem enter_nil : l.enter [] = l :=
  if_pos (.inl rfl)

@[simp] theorem enter_dot : l.enter dot = l :=
  if_pos (.inr rfl)

@[simp] theorem enter_dots : l.enter dots = l.up := by
  unfold enter
  rw [if_neg (by decide), if_pos rfl]

theorem up_enter (hnil : name ≠ []) (hdot : name ≠ dot) (hdots : name ≠ dots) : (l.enter name).up = l := by
  unfold enter
  rw [if_neg (not_or.2 ⟨hnil, hdot⟩), if_neg hdots]
  rfl

theorem walk_replicate (level : ℕ) : l.walk (List.replicate level dots) = up^[level] l := by
  induction level generalizing l with
  | zero => rfl
  | succ level ih => rw [replicate_succ, walk_cons, enter_dots, ih, Function.iterate_succ_apply]

theorem ups_le_up : l.ups ≤ l.up.ups := by
  unfold up
  split
  · exact Nat.le_refl _
  · split
    · exact Nat.le_refl _
    · exact Nat.le_succ _

theorem ups_le_enter : l.ups ≤ (l.enter name).ups := by
  unfold enter
  split_ifs
  · exact Nat.le_refl _
  · exact ups_le_up
  · exact Nat.le_refl _

theorem ups_le_walk : l.ups ≤ (l.walk cs).ups := by
  induction cs generalizing l with
  | nil => exact Nat.le_refl _
  | cons name cs ih => exact Nat.le_trans ups_le_enter ih

theorem ups_iterate (hl : l.absolute = false) (hnames : l.names = []) (level : ℕ) :
    up^[level] l = { l with ups := l.ups + level } := by
  induction level generalizing l with
  | zero => rfl
  | succ level ih =>
    have hup : l.up = { l with ups := l.ups + 1 } := by
      unfold up
      rw [hnames, hl]
      rfl
    have hstep := @ih l.up (by rw [hup]; exact hl) (by rw [hup]; exact hnames)
    rw [Function.iterate_succ_apply, hstep, hup]
    dsimp only
    rw [Nat.add_assoc, Nat.add_comm 1 level]

end Location

def components (path : List Char) : List Name :=
  path.splitOn '/'

def location (path : List Char) : Location :=
  Location.walk ⟨path.head? == some '/', 0, []⟩ (components path)

def Climbs (path : List Char) : Prop :=
  0 < (Location.walk ⟨false, 0, []⟩ (components path)).ups

def EndsInName (path : List Char) : Prop :=
  ∀ name, ((components path).filter fun name => !name.isEmpty).getLast? = some name → name ≠ dot ∧ name ≠ dots

instance (path : List Char) : Decidable (EndsInName path) :=
  inferInstanceAs (Decidable (∀ name ∈ ((components path).filter fun name => !name.isEmpty).getLast?,
    name ≠ dot ∧ name ≠ dots))

/-! ## Cancelling -/

structure Cancelled where
  level : ℕ
  pending : List Name
  kept : List Name

namespace Cancelled

def addUp (s : Cancelled) : Cancelled :=
  { s with level := s.level + 1, pending := dots :: s.pending }

def addName (s : Cancelled) (name : Name) : Cancelled :=
  if s.level = 0 then { s with kept := name :: s.kept }
  else if s.level = 1 then { s with level := 0, pending := [] }
  else { s with level := s.level - 1, pending := name :: s.pending }

end Cancelled

def cancel (absolute : Bool) : List Name → Cancelled → Cancelled
  | [], s => s
  | name :: front, s =>
    if name = dots ∧ ¬(absolute = true ∧ front = []) then cancel absolute front s.addUp
    else cancel absolute front (s.addName name)

structure Ordinary (name : Name) : Prop where
  nonempty : name ≠ []
  ne_dot : name ≠ dot
  slash : '/' ∉ name

/-- The pending components lead `level` steps up from wherever they start. -/
structure Cancelled.Sound (s : Cancelled) : Prop where
  pending : ∀ l : Location, l.walk s.pending = Location.up^[s.level] l
  nil : s.level = 0 → s.pending = []
  length : 3 * s.level ≤ (Separated.tail '/' s.pending).length

section Cancel

variable {front : List Name} {s : Cancelled} {l : Location} {name : Name}

theorem sound_nil (kept : List Name) : Cancelled.Sound ⟨0, [], kept⟩ :=
  ⟨fun _ => rfl, fun _ => rfl, Nat.le_refl _⟩

theorem Cancelled.Sound.addUp (h : s.Sound) : s.addUp.Sound where
  pending := fun l => by
    show l.walk (dots :: s.pending) = Location.up^[s.level + 1] l
    rw [Location.walk_cons, Location.enter_dots, h.pending, Function.iterate_succ_apply]
  nil := fun hzero => nomatch hzero
  length := by
    have hlength := h.length
    have hdots : dots.length = 2 := rfl
    show 3 * (s.level + 1) ≤ (Separated.tail '/' (dots :: s.pending)).length
    rw [Separated.tail_cons, length_cons, length_append]
    omega

theorem Cancelled.Sound.addName (h : s.Sound) (hname : Ordinary name) (hdots : name ≠ dots) :
    (s.addName name).Sound := by
  unfold Cancelled.addName
  by_cases hzero : s.level = 0
  · rw [if_pos hzero]
    exact ⟨h.pending, h.nil, h.length⟩
  · rw [if_neg hzero]
    by_cases hone : s.level = 1
    · rw [if_pos hone]
      exact sound_nil s.kept
    · rw [if_neg hone]
      obtain ⟨level, hsucc⟩ := Nat.exists_eq_succ_of_ne_zero hzero
      refine ⟨fun l => ?_, fun hlevel => ?_, ?_⟩
      · show l.walk (name :: s.pending) = Location.up^[s.level - 1] l
        rw [Location.walk_cons, h.pending, hsucc, Function.iterate_succ_apply,
          Location.up_enter hname.nonempty hname.ne_dot hdots]
        rfl
      · dsimp only at hlevel
        omega
      · have hlength := h.length
        show 3 * (s.level - 1) ≤ (Separated.tail '/' (name :: s.pending)).length
        rw [Separated.tail_cons, length_cons, length_append]
        omega

theorem Cancelled.Sound.walk_addName (h : s.Sound) (hname : (l.enter name).up = l) :
    l.walk ((s.addName name).pending ++ (s.addName name).kept) = l.walk (name :: s.pending ++ s.kept) := by
  unfold Cancelled.addName
  by_cases hzero : s.level = 0
  · rw [if_pos hzero, h.nil hzero]
    rfl
  · rw [if_neg hzero]
    by_cases hone : s.level = 1
    · rw [if_pos hone]
      have hback : (l.enter name).walk s.pending = l := by
        rw [h.pending, hone]
        exact hname
      rw [Location.walk_append, Location.walk_append, Location.walk_cons, hback]
      rfl
    · rw [if_neg hone]

theorem cancel_sound (hfront : ∀ name ∈ front, Ordinary name) (h : s.Sound) :
    (cancel false front s).Sound ∧ ∀ l : Location,
      l.walk ((cancel false front s).pending ++ (cancel false front s).kept) =
        l.walk (front.reverse ++ s.pending ++ s.kept) := by
  induction front generalizing s with
  | nil => exact ⟨h, fun l => rfl⟩
  | cons name front ih =>
    obtain ⟨hname, hrest⟩ := forall_mem_cons.1 hfront
    rw [cancel]
    by_cases hdots : name = dots
    · rw [if_pos ⟨hdots, by simp⟩, hdots, reverse_cons]
      obtain ⟨hsound, hwalk⟩ := ih hrest h.addUp
      refine ⟨hsound, fun l => ?_⟩
      rw [hwalk]
      simp [Cancelled.addUp]
    · rw [if_neg fun hup => hdots hup.1, reverse_cons]
      obtain ⟨hsound, hwalk⟩ := ih hrest (h.addName hname hdots)
      refine ⟨hsound, fun l => ?_⟩
      have hup : ∀ l : Location, (l.enter name).up = l := fun l =>
        Location.up_enter hname.nonempty hname.ne_dot hdots
      rw [hwalk, append_assoc, Location.walk_append, h.walk_addName (hup _), ← Location.walk_append]
      simp

theorem cancel_kept : ∃ names, (cancel false front s).kept = names ++ s.kept ∧
    ∀ name ∈ names, name ∈ front ∧ name ≠ dots := by
  induction front generalizing s with
  | nil => exact ⟨[], rfl, fun name hname => (not_mem_nil hname).elim⟩
  | cons name front ih =>
    rw [cancel]
    by_cases hdots : name = dots
    · rw [if_pos ⟨hdots, by simp⟩]
      obtain ⟨names, hkept, hnames⟩ := @ih s.addUp
      exact ⟨names, hkept, fun x hx => ⟨mem_cons_of_mem name (hnames x hx).1, (hnames x hx).2⟩⟩
    · rw [if_neg fun hup => hdots hup.1]
      obtain ⟨names, hkept, hnames⟩ := @ih (s.addName name)
      have hold : ∀ x ∈ names, x ∈ name :: front ∧ x ≠ dots := fun x hx =>
        ⟨mem_cons_of_mem name (hnames x hx).1, (hnames x hx).2⟩
      rw [hkept]
      unfold Cancelled.addName
      split_ifs
      · refine ⟨names ++ [name], by rw [append_assoc]; rfl, fun x hx => ?_⟩
        rcases mem_append.1 hx with hx | hx
        · exact hold x hx
        · rw [mem_singleton.1 hx]
          exact ⟨mem_cons_self, hdots⟩
      · exact ⟨names, rfl, hold⟩
      · exact ⟨names, rfl, hold⟩

theorem cancel_mem {absolute : Bool} :
    ∀ x ∈ (cancel absolute front s).pending ++ (cancel absolute front s).kept,
      x ∈ front ∨ x ∈ s.pending ++ s.kept := by
  induction front generalizing s with
  | nil => exact fun x hx => .inr hx
  | cons name front ih =>
    have hup : ∀ x ∈ s.addUp.pending ++ s.addUp.kept, x = dots ∨ x ∈ s.pending ++ s.kept := by
      intro x hx
      exact mem_cons.1 hx
    have hname : ∀ x ∈ (s.addName name).pending ++ (s.addName name).kept,
        x = name ∨ x ∈ s.pending ++ s.kept := by
      intro x hx
      unfold Cancelled.addName at hx
      split_ifs at hx
      · rw [mem_append, mem_cons] at hx
        rw [mem_append]
        tauto
      · exact .inr (mem_append_right _ hx)
      · exact mem_cons.1 hx
    intro x hx
    rw [cancel] at hx
    rw [mem_cons]
    split_ifs at hx with hdots
    · rcases ih x hx with hx | hx
      · exact .inl (.inr hx)
      · rcases hup x hx with hx | hx
        · exact .inl (.inl (hx.trans hdots.1.symm))
        · exact .inr hx
    · rcases ih x hx with hx | hx
      · exact .inl (.inr hx)
      · rcases hname x hx with hx | hx
        · exact .inl (.inl hx)
        · exact .inr hx

theorem cancel_absolute (h : front.getLast? ≠ some dots) : cancel true front s = cancel false front s := by
  induction front generalizing s with
  | nil => rfl
  | cons name front ih =>
    rw [cancel, cancel]
    cases front with
    | nil =>
      have hdots : name ≠ dots := fun heq => h (congrArg some heq)
      rw [if_neg fun hup => hdots hup.1, if_neg fun hup => hdots hup.1]
      rfl
    | cons next front =>
      rw [getLast?_cons_cons] at h
      rw [ih h, ih h]
      simp

theorem cancel_concat_dots : cancel true (front ++ [dots]) s = (cancel false front s).addName dots := by
  induction front generalizing s with
  | nil =>
    show cancel true [dots] s = s.addName dots
    unfold cancel
    exact if_neg fun hup => hup.2 ⟨rfl, rfl⟩
  | cons name front ih =>
    rw [cons_append, cancel, cancel, ih, ih]
    by_cases hdots : name = dots
    · rw [if_pos ⟨hdots, by simp⟩, if_pos ⟨hdots, by simp⟩]
    · rw [if_neg fun hup => hdots hup.1, if_neg fun hup => hdots hup.1]

theorem cancel_root (hroot : l.up = l) (hfront : ∀ name ∈ front, Ordinary name) (h : s.Sound) :
    l.walk ((cancel true front s).pending ++ (cancel true front s).kept) =
      l.walk (front.reverse ++ s.pending ++ s.kept) := by
  by_cases hlast : front.getLast? = some dots
  · obtain ⟨init, rfl⟩ := getLast?_eq_some_iff.1 hlast
    have hinit : ∀ name ∈ init, Ordinary name := fun name hname =>
      hfront name (mem_append_left _ hname)
    obtain ⟨hsound, hwalk⟩ := cancel_sound hinit h
    have hname : (l.enter dots).up = l := by
      rw [Location.enter_dots, hroot, hroot]
    rw [cancel_concat_dots, hsound.walk_addName hname, cons_append, Location.walk_cons,
      Location.enter_dots, hroot, hwalk, reverse_concat, cons_append, cons_append,
      Location.walk_cons, Location.enter_dots, hroot]
  · rw [cancel_absolute hlast]
    exact (cancel_sound hfront h).2 l

variable {absolute : Bool}

theorem cancel_kept_ne (h : s.kept ≠ []) : (cancel absolute front s).kept ≠ [] := by
  induction front generalizing s with
  | nil => exact h
  | cons name front ih =>
    rw [cancel]
    split_ifs
    · exact ih h
    · refine ih ?_
      unfold Cancelled.addName
      split_ifs
      · exact cons_ne_nil _ _
      · exact h
      · exact h

theorem cancel_pending_ne (h : 0 < s.level → s.pending ≠ []) :
    0 < (cancel absolute front s).level → (cancel absolute front s).pending ≠ [] := by
  induction front generalizing s with
  | nil => exact h
  | cons name front ih =>
    rw [cancel]
    split_ifs
    · exact ih fun _ => cons_ne_nil _ _
    · refine ih ?_
      unfold Cancelled.addName
      split_ifs
      · exact h
      · exact fun hpos => absurd hpos (Nat.lt_irrefl 0)
      · exact fun _ => cons_ne_nil _ _

theorem cancel_length : (Separated.tail '/' ((cancel absolute front s).pending ++
      (cancel absolute front s).kept)).length ≤
    (Separated.tail '/' front.reverse).length + (Separated.tail '/' (s.pending ++ s.kept)).length := by
  induction front generalizing s with
  | nil => exact Nat.le_add_left _ _
  | cons name front ih =>
    have hup : (Separated.tail '/' (s.addUp.pending ++ s.addUp.kept)).length =
        3 + (Separated.tail '/' (s.pending ++ s.kept)).length := by
      show (Separated.tail '/' (dots :: s.pending ++ s.kept)).length = _
      rw [cons_append, Separated.tail_cons, length_cons, length_append, show dots.length = 2 from rfl]
      omega
    have hname : (Separated.tail '/' ((s.addName name).pending ++ (s.addName name).kept)).length ≤
        1 + name.length + (Separated.tail '/' (s.pending ++ s.kept)).length := by
      unfold Cancelled.addName
      split_ifs
      all_goals
        simp only [Separated.tail_append, Separated.tail_cons, cons_append, nil_append,
          length_append, length_cons]
        omega
    have hfront : (Separated.tail '/' (name :: front).reverse).length =
        (Separated.tail '/' front.reverse).length + (name.length + 1) := by
      rw [reverse_cons, Separated.tail_append, length_append, Separated.tail_cons,
        Separated.tail_nil, append_nil, length_cons]
    rw [cancel, hfront]
    split_ifs with hdots
    · have hrest := @ih s.addUp
      have htwo : name.length = 2 := by
        rw [hdots.1]
        rfl
      omega
    · have hrest := @ih (s.addName name)
      omega

end Cancel

end ScoreP.IoTools

import Mathlib.Algebra.Group.Nat.Defs
import ScoreP.Foundations.Chain
import ScoreP.Foundations.StableSort

/-!
# Sorting a list of profile nodes

Source: `sort_node_list` in `src/measurement/profiling/scorep_profile_node.c`. The list is linked by
`next_sibling`; a location that holds a pointer is the head of a list or the link of a node. Following
NULL is answered with `none`, and so is a loop that needs more rounds than its fuel.

`mergeLoop_spec` is the loop that links the second half into the first, and `sortNodeList_spec` says that
the list is the stable sort of the nodes, with its last node as the tail.
-/

namespace ScoreP.Profile

open Foundations Function List

variable {α : Type} [DecidableEq α]

structure NodeList (α : Type) where
  next : α → Option α
  head : Option α

/-- `*last = value`; `last` points to the head or to the link of a node. -/
def NodeList.write (s : NodeList α) (last value : Option α) : NodeList α :=
  match last with
  | none => { s with head := value }
  | some node => { s with next := update s.next node value }

/-- `for ( pos = 0, mid = *head; pos < pos_end; pos++ )`, with the node whose link `last` points to. -/
def findMiddle (next : α → Option α) : ℕ → Option α → Option α → Option (Option α × Option α)
  | 0, last, mid => some (last, mid)
  | _ + 1, _, none => none
  | pos + 1, _, some mid => findMiddle next pos (some mid) (next mid)

structure Merged (α : Type) where
  list : NodeList α
  last : Option α
  headTail : Option α
  mid : Option α

/-- `while ( NULL != mid && NULL != head_tail )` -/
def mergeLoop (func : α → α → Bool) : ℕ → NodeList α → Option α → Option α → Option α → Option (Merged α)
  | 0, _, _, _, _ => none
  | fuel + 1, s, last, headTail, mid =>
    match mid, headTail with
    | some node, some tail =>
      if !func tail node then
        -- just advance head_tail
        mergeLoop func fuel s (some tail) (s.next tail) (some node)
      else
        -- insert the element from mid before head_tail and advance mid
        let midNext := s.next node
        let s := s.write last (some node)
        let s := s.write (some node) (some tail)
        mergeLoop func fuel s (some node) (some tail) midNext
    | mid, headTail => some ⟨s, last, headTail, mid⟩

/-- `while ( NULL != head_tail->next_sibling )` -/
def lastNode (next : α → Option α) : ℕ → α → Option α
  | 0, _ => none
  | fuel + 1, node =>
    match next node with
    | none => some node
    | some node' => lastNode next fuel node'

/-- What is left is appended, and `tail` brought to the end of the list. -/
def finishMerge (fuel : ℕ) (merged : Merged α) (tail : Option α) : Option (NodeList α × Option α) :=
  match merged.mid with
  | some mid => some (merged.list.write merged.last (some mid), tail)
  | none =>
    match merged.headTail with
    | none => some (merged.list, tail)
    | some node => (lastNode merged.list.next fuel node).map fun tail => (merged.list, some tail)

/-- `sort_node_list`; also gives `*tail`. -/
def sortNodeList (func : α → α → Bool) : ℕ → NodeList α → ℕ → Option (NodeList α × Option α)
  | 0, _, _ => none
  | fuel + 1, s, number =>
    if number ≤ 1 then some (s, s.head)
    else do
      let posEnd := number / 2
      -- cut the list in the middle
      let (last, mid) ← findMiddle s.next posEnd none s.head
      let s := s.write last none
      -- sort the two sub-lists
      let (s, headTail) ← sortNodeList func fuel s posEnd
      let (right, tail) ← sortNodeList func fuel ⟨s.next, mid⟩ (number - posEnd)
      let leftTail ← headTail
      let mid ← right.head
      if !func leftTail mid then
        return (⟨update right.next leftTail (some mid), s.head⟩, tail)
      else
        let merged ← mergeLoop func (number + 1) ⟨right.next, s.head⟩ none s.head (some mid)
        finishMerge number merged tail

/-! ## Writing behind a part of the list -/

variable {s : NodeList α} {p q value : Option α} {as bs done left right : List α} {a : α}
  {next : α → Option α} {fuel : ℕ}

theorem NodeList.write_next_of_ne {last : Option α} (h : last ≠ some a) :
    (s.write last value).next a = s.next a := by
  cases last with
  | none => rfl
  | some b => exact update_of_ne (fun hab => h (congrArg some hab.symm)) _ _

theorem segment_write (h : Segment s.next s.head as q) (hnodup : as.Nodup) :
    Segment (s.write as.getLast? value).next (s.write as.getLast? value).head as value := by
  cases eq_nil_or_concat as with
  | inl hnil =>
    rw [hnil]
    rfl
  | inr hconcat =>
    obtain ⟨init, last, rfl⟩ := hconcat
    rw [concat_eq_append] at h hnodup ⊢
    rw [getLast?_concat]
    obtain ⟨hinit, -⟩ := segment_snoc.1 h
    obtain ⟨-, -, hdisjoint⟩ := nodup_append.1 hnodup
    refine segment_snoc.2 ⟨hinit.congr fun x hx => ?_, update_self last _ _⟩
    exact update_of_ne (hdisjoint x hx last (mem_singleton_self last)) _ _

omit [DecidableEq α] in
theorem getLast?_ne_of_notMem (h : a ∉ as) : as.getLast? ≠ some a :=
  fun hlast => h (mem_of_getLast? hlast)

theorem chain_write (h : Chain next p bs) {last : Option α} (hnext : s.next = next)
    (hlast : ∀ b ∈ bs, last ≠ some b) : Chain (s.write last value).next p bs := by
  refine h.congr fun b hb => ?_
  rw [NodeList.write_next_of_ne (hlast b hb), hnext]

/-! ## The loops -/

omit [DecidableEq α] in
theorem findMiddle_spec (h : Segment next p as q) (last : Option α) :
    findMiddle next as.length last p = some (as.getLast?.or last, q) := by
  induction as generalizing p last with
  | nil =>
    have hp : p = q := h
    rw [hp]
    rfl
  | cons a as ih =>
    obtain ⟨rfl, hrest⟩ := segment_cons.1 h
    rw [length_cons, findMiddle, ih hrest]
    cases as with
    | nil => rfl
    | cons b as => simp [getLast?_eq_some_getLast]

omit [DecidableEq α] in
theorem lastNode_spec (h : Chain next (some a) (a :: as)) (hfuel : as.length < fuel) :
    lastNode next fuel a = (a :: as).getLast? := by
  induction as generalizing a fuel with
  | nil =>
    obtain ⟨fuel, rfl⟩ := Nat.exists_eq_add_of_lt hfuel
    have hnext : next a = none := (chain_cons.1 h).2
    rw [lastNode, hnext]
    rfl
  | cons b as ih =>
    cases fuel with
    | zero => omega
    | succ fuel =>
      have hrest := (chain_cons.1 h).2
      have hnext : next a = some b := (chain_cons.1 hrest).1
      rw [hnext] at hrest
      rw [length_cons] at hfuel
      rw [lastNode, hnext]
      dsimp only
      rw [ih hrest (by omega), getLast?_cons_cons]

structure Merging (s : NodeList α) (done left right : List α) (p q : Option α) : Prop where
  placed : Segment s.next s.head done p
  chainLeft : Chain s.next p left
  chainRight : Chain s.next q right
  nodup : (done ++ left ++ right).Nodup

def Frame (nodes : List α) (next next' : α → Option α) : Prop :=
  ∀ x, x ∉ nodes → next' x = next x

variable {nodes : List α}

omit [DecidableEq α] in
theorem Frame.trans {next' next'' : α → Option α} (h : Frame nodes next next')
    (h' : Frame nodes next' next'') : Frame nodes next next'' :=
  fun x hx => (h' x hx).trans (h x hx)

omit [DecidableEq α] in
theorem Frame.mono {nodes nodes' : List α} {next' : α → Option α} (h : Frame nodes next next')
    (hmem : ∀ x ∈ nodes, x ∈ nodes') : Frame nodes' next next' :=
  fun x hx => h x fun hnode => hx (hmem x hnode)

theorem frame_write {last : Option α} (h : ∀ x, last = some x → x ∈ nodes) :
    Frame nodes s.next (s.write last value).next :=
  fun x hx => NodeList.write_next_of_ne fun hlast => hx (h x hlast)

variable {t m : α}

omit [DecidableEq α] in
theorem Merging.advance (h : Merging s done (t :: left) right p q) :
    Merging s (done ++ [t]) left right (s.next t) q := by
  obtain ⟨rfl, hleft⟩ := chain_cons.1 h.chainLeft
  refine ⟨segment_snoc.2 ⟨h.placed, rfl⟩, hleft, h.chainRight, ?_⟩
  have hall := h.nodup
  rwa [append_cons] at hall

theorem Merging.insert (h : Merging s done (t :: left) (m :: right) (some t) (some m)) :
    Merging ((s.write done.getLast? (some m)).write (some m) (some t)) (done ++ [m]) (t :: left) right
      (some t) (s.next m) := by
  obtain ⟨-, hright⟩ := chain_cons.1 h.chainRight
  have hnodup := h.nodup
  simp only [nodup_append, nodup_cons, mem_append, mem_cons] at hnodup
  have hdone : ∀ x, x ∉ done → done.getLast? ≠ some x := fun x => getLast?_ne_of_notMem
  have hchain : ∀ {r : Option α} {xs : List α}, Chain s.next r xs → (∀ x ∈ xs, x ∉ done) → m ∉ xs →
      Chain ((s.write done.getLast? (some m)).write (some m) (some t)).next r xs := by
    intro r xs hxs hapart hm
    have hfirst : Chain (s.write done.getLast? (some m)).next r xs :=
      chain_write hxs rfl fun x hx => hdone x (hapart x hx)
    exact chain_write hfirst rfl fun x hx heq => hm (Option.some.inj heq ▸ hx)
  refine ⟨segment_snoc.2 ⟨?_, ?_⟩, ?_, ?_, ?_⟩
  · have hplaced : Segment (s.write done.getLast? (some m)).next
        (s.write done.getLast? (some m)).head done (some m) := segment_write h.placed (by grind)
    refine hplaced.congr fun x hx => NodeList.write_next_of_ne fun heq => ?_
    grind
  · exact update_self m _ _
  · exact hchain h.chainLeft (by grind) (by grind)
  · exact hchain hright (by grind) (by grind)
  · have hperm : (done ++ [m] ++ (t :: left) ++ right).Perm (done ++ (t :: left) ++ m :: right) := by
      rw [append_assoc, append_assoc, append_assoc, singleton_append]
      exact perm_middle.symm.append_left done
    exact hperm.nodup_iff.2 h.nodup

theorem mergeLoop_spec (func : α → α → Bool) (h : Merging s done left right p q)
    (hfuel : left.length + right.length < fuel) (hsome : left ≠ [] ∨ right ≠ []) :
    ∃ s' done' left' right' p' q', mergeLoop func fuel s done.getLast? p q = some ⟨s', done'.getLast?, p', q'⟩ ∧
        Merging s' done' left' right' p' q' ∧
        done' ++ left' ++ right' = done ++ left.merge right (fun x y => !func x y) ∧
        (left' = [] ∧ right' ≠ [] ∨ left' ≠ [] ∧ right' = []) ∧ (∃ pre, right = pre ++ right') ∧
        Frame (done ++ left ++ right) s.next s'.next := by
  induction fuel generalizing s done left right p q with
  | zero => omega
  | succ fuel ih =>
    cases right with
    | nil =>
      have hq : q = none := h.chainRight
      subst hq
      refine ⟨s, done, left, [], p, none, rfl, h, ?_, .inr ⟨?_, rfl⟩, ⟨[], rfl⟩, fun _ _ => rfl⟩
      · rw [append_nil, merge_right]
      · exact hsome.resolve_right fun hne => hne rfl
    | cons m right =>
      obtain ⟨rfl, -⟩ := chain_cons.1 h.chainRight
      cases left with
      | nil =>
        have hp : p = none := h.chainLeft
        subst hp
        refine ⟨s, done, [], m :: right, none, some m, rfl, h, ?_, .inl ⟨rfl, cons_ne_nil _ _⟩,
          ⟨[], rfl⟩, fun _ _ => rfl⟩
        rw [append_nil, nil_merge]
      | cons t left =>
        obtain ⟨rfl, -⟩ := chain_cons.1 h.chainLeft
        rw [mergeLoop]
        dsimp only
        by_cases hle : (!func t m) = true
        · rw [if_pos hle]
          have hlast : (done ++ [t]).getLast? = some t := getLast?_concat
          obtain ⟨s', done', left', right', p', q', hloop, hmerging, hall, hone, hpre, hframe⟩ :=
            ih h.advance (by simp only [length_cons] at hfuel ⊢; omega) (.inr (cons_ne_nil _ _))
          rw [hlast] at hloop
          refine ⟨s', done', left', right', p', q', hloop, hmerging, ?_, hone, hpre, ?_⟩
          · rw [hall, cons_merge_cons_pos (fun x y => !func x y) left right hle,
              append_assoc, singleton_append]
          · rwa [← append_cons] at hframe
        · rw [if_neg hle]
          have hlast : (done ++ [m]).getLast? = some m := getLast?_concat
          obtain ⟨s', done', left', right', p', q', hloop, hmerging, hall, hone, ⟨pre, hpre⟩, hframe⟩ :=
            ih h.insert (by simp only [length_cons] at hfuel ⊢; omega) (.inl (cons_ne_nil _ _))
          rw [hlast] at hloop
          refine ⟨s', done', left', right', p', q', hloop, hmerging, ?_, hone,
            ⟨m :: pre, by rw [hpre]; rfl⟩, ?_⟩
          · rw [hall, cons_merge_cons_neg (fun x y => !func x y) left right hle,
              append_assoc, singleton_append]
          · have hnodes : ∀ x, x = m ∨ x ∈ done → x ∈ done ++ t :: left ++ m :: right := by
              intro x hx
              simp only [mem_append, mem_cons]
              tauto
            have hfirst : Frame (done ++ t :: left ++ m :: right) s.next
                (s.write done.getLast? (some m)).next :=
              frame_write fun x hx => hnodes x (.inr (mem_of_getLast? hx))
            have hsecond : Frame (done ++ t :: left ++ m :: right) (s.write done.getLast? (some m)).next
                ((s.write done.getLast? (some m)).write (some m) (some t)).next :=
              frame_write fun x hx => hnodes x (.inl (Option.some.inj hx).symm)
            refine (hfirst.trans hsecond).trans (hframe.mono fun x hx => ?_)
            simp only [mem_append, mem_cons, not_mem_nil] at hx ⊢
            tauto

theorem finishMerge_spec (h : Merging s done left right p q)
    (hone : left = [] ∧ right ≠ [] ∨ left ≠ [] ∧ right = []) {tail : Option α}
    (htail : right ≠ [] → tail = right.getLast?) (hfuel : left.length ≤ fuel) :
    ∃ s' tail', finishMerge fuel ⟨s, done.getLast?, p, q⟩ tail = some (s', tail') ∧
      Chain s'.next s'.head (done ++ left ++ right) ∧
      tail' = (done ++ left ++ right).getLast? ∧ Frame (done ++ left ++ right) s.next s'.next := by
  have hnodup := h.nodup
  rcases hone with ⟨rfl, hright⟩ | ⟨hleft, rfl⟩
  · obtain ⟨m, right, rfl⟩ := exists_cons_of_ne_nil hright
    obtain ⟨rfl, -⟩ := chain_cons.1 h.chainRight
    rw [append_nil] at hnodup ⊢
    obtain ⟨hdone, -, hdisjoint⟩ := nodup_append.1 hnodup
    refine ⟨_, tail, rfl, ?_, ?_, ?_⟩
    · refine segment_append.2 ⟨some m, segment_write h.placed hdone, ?_⟩
      refine chain_write h.chainRight rfl fun x hx heq => ?_
      exact hdisjoint x (mem_of_getLast? heq) x hx rfl
    · rw [htail hright, getLast?_append_of_ne_nil _ hright]
    · exact frame_write fun x hx => mem_append_left _ (mem_of_getLast? hx)
  · have hq : q = none := h.chainRight
    subst hq
    obtain ⟨t, left, rfl⟩ := exists_cons_of_ne_nil hleft
    obtain ⟨rfl, -⟩ := chain_cons.1 h.chainLeft
    rw [length_cons] at hfuel
    have hlast : lastNode s.next fuel t = (t :: left).getLast? := lastNode_spec h.chainLeft hfuel
    rw [append_nil]
    refine ⟨s, (t :: left).getLast?, ?_, segment_append.2 ⟨some t, h.placed, h.chainLeft⟩, ?_,
      fun _ _ => rfl⟩
    · rw [finishMerge]
      dsimp only
      rw [hlast]
      simp [getLast?_eq_some_getLast]
    · rw [getLast?_append_of_ne_nil _ (cons_ne_nil t left)]

/-! ## Sorting -/

/-- `func` is the strict order that belongs to `le`. -/
def notGreater (func : α → α → Bool) (x y : α) : Bool :=
  !func x y

omit [DecidableEq α] in
theorem sorted_append {le : α → α → Bool} (hle : TotalPreorder le)
    (hleft : left.Pairwise fun x y => le x y = true) (hright : right.Pairwise fun x y => le x y = true)
    (hlast : left.getLast? = some t) (hhead : right.head? = some m) (htm : le t m = true) :
    left.merge right le = left ++ right := by
  refine merge_of_le fun x y hx hy => ?_
  have hxt : le x t = true := by
    obtain ⟨init, hinit⟩ := getLast?_eq_some_iff.1 hlast
    rw [hinit] at hx hleft
    rcases mem_append.1 hx with hmem | hmem
    · exact (pairwise_append.1 hleft).2.2 x hmem t (mem_singleton_self t)
    · rw [mem_singleton.1 hmem]
      exact hle.refl t
  have hmy : le m y = true := by
    obtain ⟨rest, hrest⟩ := head?_eq_some_iff.1 hhead
    rw [hrest] at hy hright
    rcases mem_cons.1 hy with heq | hmem
    · rw [heq]
      exact hle.refl m
    · exact (pairwise_cons.1 hright).1 y hmem
  exact hle.trans x m y (hle.trans x t m hxt htm) hmy

variable {func : α → α → Bool}

theorem sortNodeList_halves {number : ℕ} {last mid tail : Option α} {s₁ s₂ : NodeList α} (hnumber : ¬number ≤ 1)
    (hmiddle : findMiddle s.next (number / 2) none s.head = some (last, mid))
    (hleft : sortNodeList func fuel (s.write last none) (number / 2) = some (s₁, some t))
    (hright : sortNodeList func fuel ⟨s₁.next, mid⟩ (number - number / 2) = some (s₂, tail))
    (hmid : s₂.head = some m) : sortNodeList func (fuel + 1) s number =
      if !func t m then some (⟨update s₂.next t (some m), s₁.head⟩, tail)
      else (mergeLoop func (number + 1) ⟨s₂.next, s₁.head⟩ none s₁.head (some m)).bind fun merged =>
        finishMerge number merged tail := by
  rw [sortNodeList, if_neg hnumber]
  simp only [Option.bind_eq_bind, Option.bind_some, hmiddle, hleft, hright, hmid]
  rfl

theorem sortNodeList_stable (hle : TotalPreorder (notGreater func)) (h : Chain s.next s.head nodes)
    (hnodup : nodes.Nodup) (hfuel : nodes.length < fuel) :
    ∃ s' nodes', sortNodeList func fuel s nodes.length = some (s', nodes'.getLast?) ∧
      StableSorted (notGreater func) nodes nodes' ∧ Chain s'.next s'.head nodes' ∧
      Frame nodes s.next s'.next := by
  induction fuel generalizing s nodes with
  | zero => omega
  | succ fuel ih =>
    by_cases hnumber : nodes.length ≤ 1
    · rw [sortNodeList, if_pos hnumber]
      refine ⟨s, nodes, ?_, stableSorted_self ?_, h, fun _ _ => rfl⟩
      · cases nodes with
        | nil =>
          have hhead : s.head = none := h
          rw [hhead]
          rfl
        | cons a nodes =>
          cases nodes with
          | nil => rw [(chain_cons.1 h).1]; rfl
          | cons b nodes => simp at hnumber
      · cases nodes with
        | nil => exact List.Pairwise.nil
        | cons a nodes =>
          cases nodes with
          | nil => exact pairwise_singleton _ a
          | cons b nodes => simp at hnumber
    · obtain ⟨left, right, hnodes, hleftLength⟩ : ∃ left right, nodes = left ++ right ∧
          left.length = nodes.length / 2 :=
        ⟨nodes.take (nodes.length / 2), nodes.drop (nodes.length / 2),
          (take_append_drop _ _).symm, by rw [length_take]; omega⟩
      have hlength : nodes.length = left.length + right.length := by
        rw [hnodes, length_append]
      have hright : nodes.length - nodes.length / 2 = right.length := by omega
      obtain ⟨mid, hleftSegment, hrightChain⟩ := segment_append.1 (hnodes ▸ h)
      obtain ⟨hnodupLeft, hnodupRight, hdisjoint⟩ := nodup_append.1 (hnodes ▸ hnodup)
      have hleftNe : left ≠ [] := by
        intro hnil
        rw [hnil, length_nil] at hleftLength
        omega
      -- the list is cut
      have hmiddle := findMiddle_spec hleftSegment none
      rw [Option.or_none, hleftLength] at hmiddle
      have hcutLeft : Chain (s.write left.getLast? none).next (s.write left.getLast? none).head left :=
        segment_write hleftSegment hnodupLeft
      have hcutRight : Chain (s.write left.getLast? none).next mid right := by
        refine chain_write hrightChain rfl fun x hx heq => ?_
        exact hdisjoint x (mem_of_getLast? heq) x hx rfl
      -- both halves are sorted
      obtain ⟨s₁, left', hsortLeft, hstableLeft, hchainLeft, hframeLeft⟩ :=
        ih hcutLeft hnodupLeft (by omega)
      have hcutRight' : Chain s₁.next mid right := by
        refine hcutRight.congr fun x hx => hframeLeft x fun hmem => ?_
        exact hdisjoint x hmem x hx rfl
      obtain ⟨s₂, right', hsortRight, hstableRight, hchainRight, hframeRight⟩ :=
        @ih ⟨s₁.next, mid⟩ right hcutRight' hnodupRight (by omega)
      have hchainLeft' : Chain s₂.next s₁.head left' := by
        refine hchainLeft.congr fun x hx => hframeRight x fun hmem => ?_
        exact hdisjoint x (hstableLeft.perm.mem_iff.1 hx) x hmem rfl
      have hframe : Frame nodes s.next s₂.next := by
        have hwrite : Frame nodes s.next (s.write left.getLast? none).next :=
          frame_write fun x hx => by
            rw [hnodes]
            exact mem_append_left _ (mem_of_getLast? hx)
        have hmemLeft : ∀ x ∈ left, x ∈ nodes := fun x hx => by
          rw [hnodes]
          exact mem_append_left _ hx
        have hmemRight : ∀ x ∈ right, x ∈ nodes := fun x hx => by
          rw [hnodes]
          exact mem_append_right _ hx
        exact (hwrite.trans (hframeLeft.mono hmemLeft)).trans (hframeRight.mono hmemRight)
      have hperm : (left' ++ right').Perm nodes := by
        rw [hnodes]
        exact hstableLeft.perm.append hstableRight.perm
      have hstable := hstableLeft.merge hle hstableRight
      rw [← hnodes] at hstable
      obtain ⟨t, htail⟩ : ∃ t, left'.getLast? = some t := by
        have hne : left' ≠ [] := fun hnil => hleftNe (nil_perm.1 (hnil ▸ hstableLeft.perm))
        exact ⟨left'.getLast hne, getLast?_eq_some_getLast hne⟩
      obtain ⟨m, right'', hhead⟩ : ∃ m right'', right' = m :: right'' := by
        refine exists_cons_of_ne_nil fun hnil => ?_
        have hzero := (hnil ▸ hstableRight.perm).length_eq
        rw [length_nil] at hzero
        omega
      have hmid : s₂.head = some m := by
        rw [hhead] at hchainRight
        exact (chain_cons.1 hchainRight).1
      rw [hleftLength, htail] at hsortLeft
      rw [← hright] at hsortRight
      rw [sortNodeList_halves hnumber hmiddle hsortLeft hsortRight hmid]
      by_cases hshort : (!func t m) = true
      · rw [if_pos hshort]
        have hmerge := sorted_append hle hstableLeft.sorted hstableRight.sorted htail
          (by rw [hhead]; rfl) hshort
        rw [hmerge] at hstable
        have hnodup' := hperm.nodup_iff.2 hnodup
        obtain ⟨hnodupLeft', -, hdisjoint'⟩ := nodup_append.1 hnodup'
        have hlink : (⟨update s₂.next t (some m), s₁.head⟩ : NodeList α) =
            NodeList.write ⟨s₂.next, s₁.head⟩ left'.getLast? (some m) := by
          rw [htail]
          rfl
        refine ⟨⟨update s₂.next t (some m), s₁.head⟩, left' ++ right', ?_, hstable, ?_, ?_⟩
        · rw [getLast?_append_of_ne_nil _ (by rw [hhead]; exact cons_ne_nil _ _)]
        · rw [hlink]
          refine segment_append.2 ⟨some m, segment_write hchainLeft' hnodupLeft', ?_⟩
          rw [← hmid]
          refine chain_write hchainRight rfl fun x hx heq => ?_
          exact hdisjoint' x (mem_of_getLast? heq) x hx rfl
        · refine hframe.trans fun x hx => update_of_ne (fun heq => hx ?_) _ _
          rw [heq]
          exact hperm.mem_iff.1 (mem_append_left _ (mem_of_getLast? htail))
      · rw [if_neg hshort]
        have hmerging : Merging ⟨s₂.next, s₁.head⟩ [] left' right' s₁.head (some m) :=
          ⟨rfl, hchainLeft', hmid ▸ hchainRight, by
            rw [nil_append]
            exact hperm.nodup_iff.2 hnodup⟩
        obtain ⟨s₃, done, rest, rest', p, q, hloop, hmerging', hall, hone, ⟨pre, hpre⟩, hframe₃⟩ :=
          mergeLoop_spec func hmerging (show left'.length + right'.length < nodes.length + 1 by
              rw [← length_append, hperm.length_eq]
              omega)
            (.inr (by rw [hhead]; exact cons_ne_nil _ _))
        rw [nil_append] at hall hframe₃
        have hrest : rest.length ≤ nodes.length := by
          have hmergeLength := (hstable.perm).length_eq
          rw [show left'.merge right' (notGreater func) =
            left'.merge right' fun x y => !func x y from rfl, ← hall, length_append,
            length_append] at hmergeLength
          omega
        have hlastRight : rest' ≠ [] → right'.getLast? = rest'.getLast? := fun hne => by
          rw [hpre, getLast?_append_of_ne_nil _ hne]
        obtain ⟨s₄, tail, hfinish, hchain, htail', hframe₄⟩ :=
          finishMerge_spec hmerging' hone hlastRight hrest
        rw [hall] at hchain htail' hframe₄
        have hloop' : mergeLoop func (nodes.length + 1) ⟨s₂.next, s₁.head⟩ none s₁.head (some m) =
            some ⟨s₃, done.getLast?, p, q⟩ := hloop
        rw [hloop', Option.bind_some, hfinish, htail']
        refine ⟨s₄, left'.merge right' fun x y => !func x y, rfl, hstable, hchain, ?_⟩
        refine (hframe.trans (hframe₃.mono fun x hx => hperm.mem_iff.1 hx)).trans
          (hframe₄.mono fun x hx => hstable.perm.mem_iff.1 hx)

theorem sortNodeList_spec (hle : TotalPreorder (notGreater func)) (h : Chain s.next s.head nodes)
    (hnodup : nodes.Nodup) (hfuel : nodes.length < fuel) :
    ∃ s', sortNodeList func fuel s nodes.length = some (s', (nodes.mergeSort (notGreater func)).getLast?) ∧
      Chain s'.next s'.head (nodes.mergeSort (notGreater func)) ∧ Frame nodes s.next s'.next := by
  obtain ⟨s', nodes', hsort, hstable, hchain, hframe⟩ := sortNodeList_stable hle h hnodup hfuel
  rw [hstable.eq_mergeSort hle] at hsort hchain
  exact ⟨s', hsort, hchain, hframe⟩

end ScoreP.Profile

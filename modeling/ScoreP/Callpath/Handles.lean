import ScoreP.Callpath.Paths

/-!
# Handles and paths of a process

`Meets` says what is expected of the handles: each spells the path of its node, two nodes have the same
handle if and only if they have the same path, siblings of the master have different handles, and the
master has every handle. `meets_iff_unmixed` is the exact condition: nodes of the same path compare equal
(`Unmixed`). Nodes compare the address of their parameter list and every call defines a new callpath, so
equal lists at different addresses give different handles for one path.
-/

namespace ScoreP.Callpath

open Foundations Profile List

variable {lists : ℕ → List Parameter} {definitions definitions' : List CallpathDef} {parent : Option ℕ}
  {t t' master master' roots roots' threads threads' : Forest} {node node' : Node}

/-- Every root is a thread root, and every other node waits for its handle. -/
structure WellFormed (roots : Forest) : Prop where
  threads : ∀ x ∈ roots.toList, x.1.nodeType = .threadRoot ∧ x.1.callpathHandle = none
  nodes : ∀ x ∈ roots.toList, AllPlain x.2

def OnPath (lists : ℕ → List Parameter) (roots : Forest) (path : List (ℕ × List Parameter)) (node : Node) :
    Prop :=
  ∃ x ∈ roots.toList, Siblings.At (Node.step lists) x.2 path node

def Occurs (roots : Forest) (keys : List (NodeType × TypeData)) : Prop :=
  ∃ x ∈ roots.toList, ∃ node, Siblings.At Node.key x.2 keys node

structure Meets (lists : ℕ → List Parameter) (definitions : List CallpathDef) (roots roots' : Forest)
    (definitions' : List CallpathDef) : Prop where
  run : assignCallpaths lists roots definitions = some (roots', definitions')
  kept : ∀ path node, OnPath lists roots path node → ∃ node', OnPath lists roots' path node'
  spells : ∀ path node, OnPath lists roots' path node →
    ∃ handle, node.callpathHandle = some handle ∧ Spells definitions' handle path
  same : ∀ path path' node node', OnPath lists roots' path node → OnPath lists roots' path' node' →
    (node.callpathHandle = node'.callpathHandle ↔ path = path')
  siblings : ∀ master ∈ roots'.toList.head?, Siblings.Apart Node.callpathHandle master.2
  workers : ∀ master ∈ roots'.toList.head?, ∀ x ∈ roots'.toList, ∀ node ∈ x.2.elements,
    ∃ node' ∈ master.2.elements, node'.callpathHandle = node.callpathHandle

structure Unmixed (lists : ℕ → List Parameter) (roots : Forest) : Prop where
  master : ∀ master ∈ roots.toList.head?, Siblings.Apart Node.key master.2
  keys : ∀ keys keys', Occurs roots keys → Occurs roots keys' →
    keys.map (stepOf lists) = keys'.map (stepOf lists) → keys = keys'

/-! ## Paths of keys and paths of regions -/

variable {path : List (ℕ × List Parameter)}

theorem at_step (h : ∀ node ∈ t.elements, node.Callable) : Siblings.At (Node.step lists) t path node ↔
      ∃ keys, Siblings.At Node.key t keys node ∧ keys.map (stepOf lists) = path := by
  constructor
  · intro hat
    induction hat with
    | here =>
      refine ⟨_, .here, ?_⟩
      rw [map_cons, stepOf_key (h _ mem_cons_self)]
      rfl
    | inside _ ih =>
      obtain ⟨keys, hkeys, hmap⟩ := ih fun n hn => h n (mem_cons_of_mem _ (mem_append_left _ hn))
      refine ⟨_, hkeys.inside, ?_⟩
      rw [map_cons, stepOf_key (h _ mem_cons_self), hmap]
    | beside _ ih =>
      obtain ⟨keys, hkeys, hmap⟩ := ih fun n hn => h n (mem_cons_of_mem _ (mem_append_right _ hn))
      exact ⟨keys, hkeys.beside, hmap⟩
  · rintro ⟨keys, hat, rfl⟩
    induction hat with
    | here =>
      rw [map_cons, stepOf_key (h _ mem_cons_self)]
      exact .here
    | inside _ ih =>
      rw [map_cons, stepOf_key (h _ mem_cons_self)]
      exact (ih fun n hn => h n (mem_cons_of_mem _ (mem_append_left _ hn))).inside
    | beside _ ih =>
      exact (ih fun n hn => h n (mem_cons_of_mem _ (mem_append_right _ hn))).beside

theorem Named.callable (h : Named lists definitions parent t) : ∀ node ∈ t.elements, node.Callable := by
  induction t generalizing parent with
  | nil => exact fun n hn => absurd hn not_mem_nil
  | node node children siblings ihc ihs =>
    obtain ⟨⟨hcallable, -⟩, hchildren, hsiblings⟩ := h
    intro n hn
    obtain rfl | hn := mem_cons.1 hn
    · exact hcallable
    · obtain hn | hn := mem_append.1 hn
      · exact ihc hchildren n hn
      · exact ihs hsiblings n hn

/-! ## The workers -/

structure Threads (lists : ℕ → List Parameter) (threads master : Forest) (definitions : List CallpathDef)
    (threads' master' : Forest) (definitions' : List CallpathDef) : Prop where
  isPrefix : definitions <+: definitions'
  named : Named lists definitions' none master'
  namedThreads : ∀ x ∈ threads'.toList, Named lists definitions' none x.2
  fresh : ∃ new, (handles master').Perm (handles master ++ new) ∧
    Fresh definitions.length definitions'.length new
  kept : ∀ keys node, Siblings.At Node.key master keys node → Siblings.At Node.key master' keys node
  came : ∀ keys node, Siblings.At Node.key master' keys node →
    (∃ a, Siblings.At Node.key master keys a) ∨ Occurs threads keys
  covered : ∀ x ∈ threads'.toList, Covered x.2 master'
  occurs : ∀ keys, Occurs threads keys → Occurs threads' keys
  apart : Siblings.Apart Node.key master' ↔ Siblings.Apart Node.key master

theorem matchThreads_spec (h : Named lists definitions none master)
    (hplain : ∀ x ∈ threads.toList, AllPlain x.2) : ∃ threads' master' definitions',
      matchThreads lists none threads master definitions = some (threads', master', definitions') ∧
        Threads lists threads master definitions threads' master' definitions' := by
  induction threads generalizing master definitions with
  | nil =>
    exact ⟨.nil, master, definitions, rfl, prefix_refl _, h, fun _ hx => absurd hx not_mem_nil,
      ⟨[], by rw [append_nil], .nil⟩, fun _ _ hat => hat, fun _ node hat => Or.inl ⟨node, hat⟩,
      fun _ hx => absurd hx not_mem_nil, fun _ hoccurs => hoccurs, Iff.rfl⟩
  | node thread children threads _ ih =>
    obtain ⟨children', master₁, defs₁, hrun₁, h₁⟩ := matchCallpaths_spec h (hplain _ mem_cons_self)
    obtain ⟨threads', master₂, defs₂, hrun₂, h₂⟩ := @ih defs₁ master₁ h₁.named
      fun x hx => hplain x (mem_cons_of_mem _ hx)
    refine ⟨.node thread children' threads', master₂, defs₂, by simp only [matchThreads, hrun₁, hrun₂],
      ⟨h₁.isPrefix.trans h₂.isPrefix, h₂.named, fun x hx => ?_, ?_,
        fun keys a hat => h₂.kept _ _ (h₁.kept _ _ hat), fun keys a hat => ?_, fun x hx => ?_,
        fun keys hoccurs => ?_, h₂.apart.trans h₁.apart⟩⟩
    · obtain rfl | hx := mem_cons.1 hx
      · exact h₁.namedCurrent.mono h₂.isPrefix
      · exact h₂.namedThreads x hx
    · obtain ⟨new₁, hperm₁, hfresh₁⟩ := h₁.fresh
      obtain ⟨new₂, hperm₂, hfresh₂⟩ := h₂.fresh
      refine ⟨new₁ ++ new₂, ?_, hfresh₁.append hfresh₂ h₁.isPrefix.length_le h₂.isPrefix.length_le⟩
      rw [← append_assoc]
      exact hperm₂.trans (hperm₁.append_right _)
    · obtain ⟨b, hb⟩ | ⟨x, hx, hold⟩ := h₂.came keys a hat
      · obtain hold | ⟨c, hc⟩ := h₁.came keys b hb
        · exact Or.inl hold
        · exact Or.inr ⟨_, mem_cons_self, c, hc⟩
      · exact Or.inr ⟨x, mem_cons_of_mem _ hx, hold⟩
    · obtain rfl | hx := mem_cons.1 hx
      · intro keys node hat
        obtain ⟨b, hb, hhandle⟩ := h₁.covered keys node hat
        exact ⟨b, h₂.kept _ _ hb, hhandle⟩
      · exact h₂.covered x hx
    · obtain ⟨x, hx, a, ha⟩ := hoccurs
      obtain rfl | hx := mem_cons.1 hx
      · obtain ⟨b, hb⟩ := Siblings.exists_at_of_map_eq h₁.keys ha
        exact ⟨_, mem_cons_self, b, hb⟩
      · obtain ⟨y, hy, rest⟩ := h₂.occurs keys ⟨x, hx, a, ha⟩
        exact ⟨y, mem_cons_of_mem _ hy, rest⟩

/-! ## The whole assignment -/

structure Assigned (lists : ℕ → List Parameter) (roots master : Forest) (threads' master' : Forest)
    (definitions' : List CallpathDef) : Prop where
  named : Named lists definitions' none master'
  namedThreads : ∀ x ∈ threads'.toList, Named lists definitions' none x.2
  nodup : (handles master').Nodup
  occurs : ∀ keys, Occurs roots keys ↔ ∃ a, Siblings.At Node.key master' keys a
  covered : ∀ x ∈ threads'.toList, Covered x.2 master'
  apart : Siblings.Apart Node.key master' ↔ Siblings.Apart Node.key master

theorem sortTree_node {thread children : Forest} : sortTree (.node node children thread) =
    .node node ((children.sortBelow enteredBefore).sortFirst enteredBefore) (sortTree thread) := rfl

theorem occurs_node {keys : List (NodeType × TypeData)} : Occurs (.node node master threads) keys ↔
    (∃ a, Siblings.At Node.key master keys a) ∨ Occurs threads keys := by
  unfold Occurs
  rw [Siblings.toList]
  constructor
  · rintro ⟨x, hx, rest⟩
    obtain rfl | hx := mem_cons.1 hx
    · exact Or.inl rest
    · exact Or.inr ⟨x, hx, rest⟩
  · rintro (rest | ⟨x, hx, rest⟩)
    · exact ⟨_, mem_cons_self, rest⟩
    · exact ⟨x, mem_cons_of_mem _ hx, rest⟩

theorem sorted_at {keys : List (NodeType × TypeData)} :
    Siblings.At Node.key ((t.sortBelow enteredBefore).sortFirst enteredBefore) keys node ↔
      Siblings.At Node.key t keys node :=
  (Siblings.at_perm (Siblings.sortFirst_perm _ _)).trans (Siblings.at_sortBelow _)

theorem occurs_sortTree {keys : List (NodeType × TypeData)} :
    Occurs (sortTree roots) keys ↔ Occurs roots keys := by
  unfold Occurs
  rw [sortTree, Siblings.map_sortBelow]
  constructor
  · rintro ⟨x, hx, a, ha⟩
    obtain ⟨y, hy, rfl⟩ := mem_map.1 hx
    exact ⟨y, hy, a, sorted_at.1 ha⟩
  · rintro ⟨x, hx, a, ha⟩
    exact ⟨_, mem_map_of_mem hx, a, sorted_at.2 ha⟩

theorem sorted_plain (h : AllPlain t) :
    AllPlain ((t.sortBelow enteredBefore).sortFirst enteredBefore) := fun n hn =>
  h n (((Siblings.elements_perm (Siblings.sortFirst_perm _ _)).trans
    (Siblings.elements_sortBelow _ t)).mem_iff.1 hn)

theorem assignCallpaths_spec (h : WellFormed (.node node master threads)) :
    ∃ master' threads' definitions', assignCallpaths lists (.node node master threads) definitions =
        some (.node node master' threads', definitions') ∧
      Assigned lists (.node node master threads) master threads' master' definitions' := by
  obtain ⟨htype, hhandle⟩ : node.nodeType = .threadRoot ∧ node.callpathHandle = none :=
    h.threads _ mem_cons_self
  have hsorted := sorted_plain (h.nodes _ mem_cons_self)
  have hthreads : ∀ x ∈ (sortTree threads).toList, AllPlain x.2 := by
    intro x hx
    rw [sortTree, Siblings.map_sortBelow] at hx
    obtain ⟨y, hy, rfl⟩ := mem_map.1 hx
    exact sorted_plain (h.nodes y (mem_cons_of_mem _ hy))
  have hroot : assignCallpath lists none node definitions = some (node, definitions) := by
    unfold assignCallpath
    simp [hhandle, htype]
  have hbelow : pathBelow node = none := if_pos htype
  obtain ⟨master₁, defs₁, hrun₁, hgrown₁, hnamed₁, hfresh₁, hkeys₁⟩ :=
    @assignAll_spec lists definitions none _ hsorted
  obtain ⟨threads', master₂, defs₂, hrun₂, h₂⟩ := matchThreads_spec hnamed₁ hthreads
  refine ⟨master₂, threads', defs₂, ?_, h₂.named, h₂.namedThreads, ?_, fun keys => ?_, h₂.covered, ?_⟩
  · have htype' : ¬(node.nodeType ≠ .threadRoot) := not_not_intro htype
    simp only [assignCallpaths, assignCallpathToMaster, sortTree_node, if_neg htype', hroot, hbelow, hrun₁,
      assignCallpathToWorkers, hrun₂]
  · obtain ⟨new, hperm, hfresh⟩ := h₂.fresh
    exact hperm.nodup_iff.2 (hfresh.nodup_append hfresh₁.nodup hnamed₁.bound)
  · rw [occurs_node]
    have hmaster : (∃ a, Siblings.At Node.key master₁ keys a) ↔ ∃ a, Siblings.At Node.key master keys a := by
      constructor
      · rintro ⟨a, ha⟩
        obtain ⟨b, hb⟩ := Siblings.exists_at_of_map_eq hkeys₁.symm ha
        exact ⟨b, sorted_at.1 hb⟩
      · rintro ⟨a, ha⟩
        exact Siblings.exists_at_of_map_eq hkeys₁ (sorted_at.2 ha)
    rw [← hmaster, ← @occurs_sortTree threads]
    constructor
    · rintro (⟨a, ha⟩ | hoccurs)
      · exact ⟨a, h₂.kept _ _ ha⟩
      · obtain ⟨x, hx, a, ha⟩ := h₂.occurs keys hoccurs
        obtain ⟨b, hb, -⟩ := h₂.covered x hx keys a ha
        exact ⟨b, hb⟩
    · rintro ⟨a, ha⟩
      exact h₂.came keys a ha
  · have hsort : Siblings.Apart Node.key ((master.sortBelow enteredBefore).sortFirst enteredBefore) ↔
        Siblings.Apart Node.key master :=
      (Siblings.apart_perm (Siblings.sortFirst_perm _ _)).trans (Siblings.apart_sortBelow _)
    rw [h₂.apart, ← hsort]
    exact ⟨Siblings.apart_of_map_eq hkeys₁.symm, Siblings.apart_of_map_eq hkeys₁⟩

/-! ## When the handles are as expected -/

section Assigned

variable (h : Assigned lists (.node node master threads) master threads' master' definitions')
include h

theorem Assigned.keys (hon : OnPath lists (.node node master' threads') path node') : ∃ keys a,
      keys.map (stepOf lists) = path ∧ Siblings.At Node.key master' keys a ∧
        a.callpathHandle = node'.callpathHandle := by
  obtain ⟨x, hx, hat⟩ := hon
  rw [Siblings.toList] at hx
  obtain rfl | hx := mem_cons.1 hx
  · obtain ⟨keys, hkeys, hmap⟩ := (at_step h.named.callable).1 hat
    exact ⟨keys, node', hmap, hkeys, rfl⟩
  · obtain ⟨keys, hkeys, hmap⟩ := (at_step (h.namedThreads x hx).callable).1 hat
    obtain ⟨a, ha, hhandle⟩ := h.covered x hx keys node' hkeys
    exact ⟨keys, a, hmap, ha, hhandle⟩

theorem Assigned.onPath {keys : List (NodeType × TypeData)} (hat : Siblings.At Node.key master' keys node') :
    OnPath lists (.node node master' threads') (keys.map (stepOf lists)) node' :=
  ⟨_, mem_cons_self, (at_step h.named.callable).2 ⟨keys, hat, rfl⟩⟩

theorem Assigned.spells (hon : OnPath lists (.node node master' threads') path node') :
    ∃ handle, node'.callpathHandle = some handle ∧ Spells definitions' handle path := by
  obtain ⟨x, hx, hat⟩ := hon
  rw [Siblings.toList] at hx
  have hnamed : Named lists definitions' none x.2 := by
    obtain rfl | hx := mem_cons.1 hx
    · exact h.named
    · exact h.namedThreads x hx
  obtain ⟨keys, hkeys, rfl⟩ := (at_step hnamed.callable).1 hat
  exact hnamed.spells (Or.inl ⟨rfl, rfl⟩) hkeys

theorem Assigned.same_iff : (∀ path path' a b, OnPath lists (.node node master' threads') path a →
      OnPath lists (.node node master' threads') path' b →
      (a.callpathHandle = b.callpathHandle ↔ path = path')) ↔ Unmixed lists (.node node master threads) := by
  constructor
  · intro hsame
    constructor
    · rintro x hx
      obtain rfl : (node, master) = x := Option.some.inj hx
      refine h.apart.1 (Siblings.apart_of_at h.nodup fun keys a b ha hb => ?_)
      exact (hsame _ _ a b (h.onPath ha) (h.onPath hb)).2 rfl
    · intro keys keys' hkeys hkeys' heq
      obtain ⟨a, ha⟩ := (h.occurs keys).1 hkeys
      obtain ⟨b, hb⟩ := (h.occurs keys').1 hkeys'
      exact Siblings.at_injective h.nodup ha hb ((hsame _ _ a b (h.onPath ha) (h.onPath hb)).2 heq)
  · intro hunmixed path path' a b ha hb
    constructor
    · intro heq
      obtain ⟨i, hi, hspellsA⟩ := h.spells ha
      obtain ⟨j, hj, hspellsB⟩ := h.spells hb
      obtain rfl : i = j := Option.some.inj (hi.symm.trans (heq.trans hj))
      exact hspellsA.unique hspellsB
    · rintro rfl
      obtain ⟨keys, c, hmap, hc, hcHandle⟩ := h.keys ha
      obtain ⟨keys', d, hmap', hd, hdHandle⟩ := h.keys hb
      obtain rfl := hunmixed.keys keys keys' ((h.occurs keys).2 ⟨c, hc⟩) ((h.occurs keys').2 ⟨d, hd⟩)
        (hmap.trans hmap'.symm)
      have hapart := h.apart.2 (hunmixed.master (node, master) rfl)
      rw [← hcHandle, ← hdHandle, hapart.at_unique hc hd]

end Assigned

theorem assigned_meets (h : WellFormed roots) : ∃ roots' definitions',
    (Meets lists definitions roots roots' definitions' ↔ Unmixed lists roots) ∧
      assignCallpaths lists roots definitions = some (roots', definitions') := by
  cases roots with
  | nil =>
    refine ⟨.nil, definitions, ⟨fun _ => ⟨?_, ?_⟩, fun _ => ⟨rfl, ?_, ?_, ?_, ?_, ?_⟩⟩, rfl⟩
    all_goals simp [Occurs, OnPath, Siblings.toList]
  | node node master threads =>
    obtain ⟨master', threads', definitions', hrun, hassigned⟩ := @assignCallpaths_spec lists definitions _ _ _ h
    refine ⟨.node node master' threads', definitions', ?_, hrun⟩
    rw [← hassigned.same_iff]
    refine ⟨Meets.same, fun hsame => ⟨hrun, fun path a ha => ?_, fun path a ha => hassigned.spells ha,
      hsame, fun x hx => ?_, fun x hx y hy a ha => ?_⟩⟩
    · obtain ⟨x, hx, hat⟩ := ha
      obtain ⟨keys, hkeys, rfl⟩ := (at_step fun n hn => (h.nodes x hx n hn).1).1 hat
      obtain ⟨b, hb⟩ := (hassigned.occurs keys).1 ⟨x, hx, a, hkeys⟩
      exact ⟨b, hassigned.onPath hb⟩
    · obtain rfl : (node, master') = x := Option.some.inj hx
      exact Siblings.apart_of_nodup hassigned.nodup
    · obtain rfl : (node, master') = x := Option.some.inj hx
      rw [Siblings.toList] at hy
      obtain rfl | hy := mem_cons.1 hy
      · exact ⟨a, ha, rfl⟩
      · obtain ⟨keys, hkeys⟩ := @Siblings.exists_at _ _ _ _ Node.key ha
        obtain ⟨b, hb, hhandle⟩ := hassigned.covered y hy keys a hkeys
        exact ⟨b, hb.mem, hhandle⟩

theorem meets_iff_unmixed (lists : ℕ → List Parameter) (definitions : List CallpathDef) (roots : Forest)
    (h : WellFormed roots) :
    (∃ roots' definitions', Meets lists definitions roots roots' definitions') ↔ Unmixed lists roots := by
  obtain ⟨roots', definitions', hiff, hrun⟩ := @assigned_meets lists definitions roots h
  rw [← hiff]
  constructor
  · rintro ⟨roots'', definitions'', hmeets⟩
    obtain ⟨rfl, rfl⟩ := Prod.mk.inj (Option.some.inj (hmeets.run.symm.trans hrun))
    exact hmeets
  · exact fun hmeets => ⟨roots', definitions', hmeets⟩

/-! ## Two threads -/

def twoThreads (address address' : ℕ) : Forest :=
  .node ⟨.threadRoot, ⟨1, 0⟩, 0, none⟩ (.node ⟨.regularRegion, ⟨5, address⟩, 10, none⟩ .nil .nil)
    (.node ⟨.threadRoot, ⟨2, 0⟩, 0, none⟩ (.node ⟨.regularRegion, ⟨5, address'⟩, 11, none⟩ .nil .nil) .nil)

theorem twoThreads_wellFormed (address address' : ℕ) : WellFormed (twoThreads address address') := by
  constructor
  · intro x hx
    simp only [twoThreads, Siblings.toList, mem_cons, not_mem_nil, or_false] at hx
    obtain rfl | rfl := hx <;> exact ⟨rfl, rfl⟩
  · intro x hx
    simp only [twoThreads, Siblings.toList, mem_cons, not_mem_nil, or_false] at hx
    obtain rfl | rfl := hx <;>
      · intro n hn
        obtain rfl := mem_singleton.1 hn
        exact ⟨Or.inl rfl, rfl⟩

/-- A region with the same parameter on two threads: one path, two handles. -/
theorem not_meets_two_lists : WellFormed (twoThreads 16 32) ∧
    ¬∃ roots' definitions', Meets (fun _ => [⟨1, 7⟩]) [] (twoThreads 16 32) roots' definitions' := by
  refine ⟨twoThreads_wellFormed 16 32, ?_⟩
  rintro ⟨roots', definitions', hmeets⟩
  obtain ⟨roots'', definitions'', hiff, hrun⟩ :=
    @assigned_meets (fun _ => [⟨1, 7⟩]) [] _ (twoThreads_wellFormed 16 32)
  obtain ⟨rfl, rfl⟩ := Prod.mk.inj (Option.some.inj (hmeets.run.symm.trans hrun))
  have hmaster : Occurs (twoThreads 16 32) [(.regularRegion, ⟨5, 16⟩)] :=
    ⟨_, mem_cons_self, _, .here⟩
  have hworker : Occurs (twoThreads 16 32) [(.regularRegion, ⟨5, 32⟩)] :=
    ⟨_, mem_cons_of_mem _ mem_cons_self, _, .here⟩
  have hkeys := (hiff.1 hmeets).keys _ _ hmaster hworker rfl
  exact absurd hkeys (by decide)

/-- Without parameters the two nodes compare equal. -/
theorem meets_no_parameters :
    ∃ roots' definitions', Meets (fun _ => []) [] (twoThreads 0 0) roots' definitions' := by
  refine (meets_iff_unmixed _ _ _ (twoThreads_wellFormed 0 0)).2 ⟨?_, ?_⟩
  · intro x hx
    obtain rfl := Option.some.inj hx
    exact ⟨fun y hy => absurd hy not_mem_nil, trivial, trivial⟩
  · have honly : ∀ keys, Occurs (twoThreads 0 0) keys → keys = [(.regularRegion, ⟨5, 0⟩)] := by
      rintro keys ⟨x, hx, node, hat⟩
      simp only [twoThreads, Siblings.toList, mem_cons, not_mem_nil, or_false] at hx
      obtain rfl | rfl := hx <;>
        · cases hat with
          | here => rfl
          | inside hat => cases hat
          | beside hat => cases hat
    intro keys keys' hkeys hkeys' _
    rw [honly keys hkeys, honly keys' hkeys']

end ScoreP.Callpath

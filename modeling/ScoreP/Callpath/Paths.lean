import ScoreP.Callpath.Assignment

/-!
# The paths that the handles spell

`Named` says that every node of a forest has a definition that extends the one of its parent, so that its
handle spells the path to it (`Named.spells`). `assignAll_spec` and `matchCallpaths_spec` say what the two
traversals do: the nodes are named, every handle of the master is new (`Extends`), and every node of a
worker has the handle of the node of the master at the same keys (`Covered`).
-/

namespace ScoreP.Callpath

open Foundations Profile List

variable {lists : ℕ → List Parameter} {definitions definitions' definitions'' : List CallpathDef}
  {parent : Option ℕ} {t t' t'' master master' current current' : Forest} {node node' : Node}

def Node.key (node : Node) : NodeType × TypeData :=
  typeKey node.nodeType node.typeSpecificData

def Node.step (lists : ℕ → List Parameter) (node : Node) : ℕ × List Parameter :=
  (node.typeSpecificData.handle, parametersOf lists node.typeSpecificData.value)

def Node.Callable (node : Node) : Prop :=
  node.nodeType = .regularRegion ∨ node.nodeType = .taskRoot ∧ node.typeSpecificData.value = 0

/-- The path that a callpath definition stands for. -/
inductive Spells (definitions : List CallpathDef) : ℕ → List (ℕ × List Parameter) → Prop
  | first {handle region : ℕ} {parameters : List Parameter}
      (h : definitions[handle]? = some ⟨none, region, parameters⟩) :
      Spells definitions handle [(region, parameters)]
  | next {handle parent region : ℕ} {parameters : List Parameter} {path : List (ℕ × List Parameter)}
      (h : definitions[handle]? = some ⟨some parent, region, parameters⟩)
      (hparent : Spells definitions parent path) :
      Spells definitions handle (path ++ [(region, parameters)])

theorem Spells.unique {handle : ℕ} {path path' : List (ℕ × List Parameter)}
    (h : Spells definitions handle path) (h' : Spells definitions handle path') : path = path' := by
  induction h generalizing path' with
  | first h =>
    cases h' with
    | first h' => cases h.symm.trans h'; rfl
    | next h' _ => cases h.symm.trans h'
  | next h _ ih =>
    cases h' with
    | first h' => cases h.symm.trans h'
    | next h' hparent' =>
      cases h.symm.trans h'
      rw [ih hparent']

/-! ## Keys -/

theorem callable_step_eq (h : node.Callable) (h' : node'.Callable) (hkey : node.key = node'.key) :
    node.step lists = node'.step lists := by
  unfold Node.key at hkey
  unfold Node.step
  obtain h | ⟨h, hv⟩ := h
  · obtain h' | ⟨h', -⟩ := h'
    · rw [h, h'] at hkey
      rw [(Prod.mk.inj hkey).2]
    · rw [h, h'] at hkey
      exact nomatch (Prod.mk.inj hkey).1
  · obtain h' | ⟨h', hv'⟩ := h'
    · rw [h, h'] at hkey
      exact nomatch (Prod.mk.inj hkey).1
    · rw [h, h'] at hkey
      rw [hv, hv', (TypeData.mk.inj (Prod.mk.inj hkey).2).1]

def stepOf (lists : ℕ → List Parameter) (key : NodeType × TypeData) : ℕ × List Parameter :=
  (key.2.handle, parametersOf lists key.2.value)

theorem stepOf_key (h : node.Callable) : stepOf lists node.key = node.step lists := by
  unfold stepOf Node.key Node.step
  obtain h | ⟨h, hv⟩ := h
  · rw [h]
    rfl
  · rw [h, hv]
    rfl

/-! ## Forests with handles -/

def Named (lists : ℕ → List Parameter) (definitions : List CallpathDef) : Option ℕ → Forest → Prop
  | _, .nil => True
  | parent, .node node children siblings =>
    (node.Callable ∧ ∃ handle, node.callpathHandle = some handle ∧
      definitions[handle]? = some ⟨parent, (node.step lists).1, (node.step lists).2⟩) ∧
    Named lists definitions node.callpathHandle children ∧ Named lists definitions parent siblings

def handles (t : Forest) : List (Option ℕ) := t.elements.map Node.callpathHandle

theorem getElem?_of_isPrefix {handle : ℕ} {definition : CallpathDef}
    (h : definitions <+: definitions') (hget : definitions[handle]? = some definition) :
    definitions'[handle]? = some definition := by
  obtain ⟨rest, rfl⟩ := h
  rw [List.getElem?_append_left (List.getElem?_eq_some_iff.1 hget).1]
  exact hget

theorem Named.mono (h : Named lists definitions parent t) (hdefs : definitions <+: definitions') :
    Named lists definitions' parent t := by
  induction t generalizing parent with
  | nil => trivial
  | node node children siblings ihc ihs =>
    obtain ⟨⟨hcallable, handle, hhandle, hget⟩, hchildren, hsiblings⟩ := h
    exact ⟨⟨hcallable, handle, hhandle, getElem?_of_isPrefix hdefs hget⟩, ihc hchildren, ihs hsiblings⟩

theorem named_iff : Named lists definitions parent t ↔ ∀ x ∈ t.toList,
    (x.1.Callable ∧ ∃ handle, x.1.callpathHandle = some handle ∧
      definitions[handle]? = some ⟨parent, (x.1.step lists).1, (x.1.step lists).2⟩) ∧
    Named lists definitions x.1.callpathHandle x.2 := by
  induction t with
  | nil => simp [Named, Siblings.toList]
  | node node children siblings _ ih =>
    rw [Named, ih, Siblings.toList, forall_mem_cons]
    exact and_assoc.symm

theorem named_perm (h : t'.toList.Perm t.toList) :
    Named lists definitions parent t' ↔ Named lists definitions parent t := by
  rw [named_iff, named_iff]
  exact ⟨fun hall x hx => hall x (h.mem_iff.2 hx), fun hall x hx => hall x (h.mem_iff.1 hx)⟩

theorem Named.bound (h : Named lists definitions parent t) :
    ∀ x ∈ handles t, ∃ handle, x = some handle ∧ handle < definitions.length := by
  induction t generalizing parent with
  | nil => exact fun x hx => absurd hx not_mem_nil
  | node node children siblings ihc ihs =>
    obtain ⟨⟨-, handle, hhandle, hget⟩, hchildren, hsiblings⟩ := h
    intro x hx
    rw [handles, Siblings.elements, map_cons, map_append] at hx
    obtain rfl | hx := mem_cons.1 hx
    · exact ⟨handle, hhandle, (List.getElem?_eq_some_iff.1 hget).1⟩
    · obtain hx | hx := mem_append.1 hx
      · exact ihc hchildren x hx
      · exact ihs hsiblings x hx

def PathOf (definitions : List CallpathDef) (parent : Option ℕ) (path : List (ℕ × List Parameter)) : Prop :=
  parent = none ∧ path = [] ∨ ∃ handle, parent = some handle ∧ Spells definitions handle path

theorem PathOf.step {path : List (ℕ × List Parameter)} {handle : ℕ} (h : PathOf definitions parent path)
    (hcallable : node.Callable)
    (hget : definitions[handle]? = some ⟨parent, (node.step lists).1, (node.step lists).2⟩) :
    Spells definitions handle (path ++ [stepOf lists node.key]) := by
  rw [stepOf_key hcallable]
  obtain ⟨rfl, rfl⟩ | ⟨above, rfl, habove⟩ := h
  · exact .first hget
  · exact .next hget habove

theorem Named.spells {path : List (ℕ × List Parameter)} {keys : List (NodeType × TypeData)}
    (h : Named lists definitions parent t) (hpath : PathOf definitions parent path)
    (hat : Siblings.At Node.key t keys node) : ∃ handle, node.callpathHandle = some handle ∧
      Spells definitions handle (path ++ keys.map (stepOf lists)) := by
  induction hat generalizing parent path with
  | here =>
    obtain ⟨⟨hcallable, handle, hhandle, hget⟩, -, -⟩ := h
    exact ⟨handle, hhandle, hpath.step hcallable hget⟩
  | inside _ ih =>
    obtain ⟨⟨hcallable, handle, hhandle, hget⟩, hchildren, -⟩ := h
    obtain ⟨below, hbelow, hspells⟩ := ih hchildren (Or.inr ⟨handle, hhandle, hpath.step hcallable hget⟩)
    refine ⟨below, hbelow, ?_⟩
    rw [append_assoc] at hspells
    exact hspells
  | beside _ ih => exact ih h.2.2 hpath

/-! ## New handles -/

/-- Different handles from `low` on that are below `high`. -/
structure Fresh (low high : ℕ) (new : List (Option ℕ)) : Prop where
  nodup : new.Nodup
  range : ∀ x ∈ new, ∃ handle, x = some handle ∧ low ≤ handle ∧ handle < high

theorem Fresh.nil {low high : ℕ} : Fresh low high [] :=
  ⟨nodup_nil, fun _ hx => absurd hx not_mem_nil⟩

theorem Fresh.append {low mid high : ℕ} {new new' : List (Option ℕ)} (h : Fresh low mid new)
    (h' : Fresh mid high new') (hlow : low ≤ mid) (hhigh : mid ≤ high) : Fresh low high (new ++ new') where
  nodup := nodup_append.2 ⟨h.nodup, h'.nodup, fun x hx y hy hxy => by
    obtain ⟨i, rfl, -, hi⟩ := h.range x hx
    obtain ⟨j, rfl, hj, -⟩ := h'.range y hy
    have hij : i = j := Option.some.inj hxy
    omega⟩
  range := fun x hx => by
    obtain hx | hx := mem_append.1 hx
    · obtain ⟨i, rfl, hi, hi'⟩ := h.range x hx
      exact ⟨i, rfl, hi, by omega⟩
    · obtain ⟨i, rfl, hi, hi'⟩ := h'.range x hx
      exact ⟨i, rfl, by omega, hi'⟩

theorem Fresh.one {low : ℕ} : Fresh low (low + 1) [some low] :=
  ⟨nodup_singleton _, fun x hx => ⟨low, mem_singleton.1 hx, Nat.le_refl _, Nat.lt_succ_self _⟩⟩

theorem Fresh.nodup_append {l : List (Option ℕ)} {low high : ℕ} {new : List (Option ℕ)}
    (h : Fresh low high new) (hl : l.Nodup) (hbound : ∀ x ∈ l, ∃ handle, x = some handle ∧ handle < low) :
    (l ++ new).Nodup := by
  refine List.nodup_append.2 ⟨hl, h.nodup, fun x hx y hy hxy => ?_⟩
  obtain ⟨i, rfl, hi⟩ := hbound x hx
  obtain ⟨j, rfl, hj, -⟩ := h.range y hy
  have hij : i = j := Option.some.inj hxy
  omega

theorem handles_node : handles (.node node current t) =
    node.callpathHandle :: (handles current ++ handles t) := by
  rw [handles, Siblings.elements, map_cons, map_append]
  rfl

theorem handles_perm (h : t'.toList.Perm t.toList) : (handles t').Perm (handles t) :=
  (Siblings.elements_perm h).map _

/-! ## One node -/

def Node.Plain (node : Node) : Prop :=
  node.Callable ∧ node.callpathHandle = none

theorem assignCallpath_plain (h : node.Plain) : assignCallpath lists parent node definitions =
    some ({ node with callpathHandle := some definitions.length },
      definitions ++ [⟨parent, (node.step lists).1, (node.step lists).2⟩]) := by
  obtain ⟨hcallable, hnone⟩ := h
  unfold assignCallpath
  obtain htype | ⟨htype, -⟩ := hcallable
  · simp only [hnone, htype]
    rfl
  · simp only [hnone, htype]
    rfl

theorem assignCallpath_some {handle : ℕ} (h : node.callpathHandle = some handle) :
    assignCallpath lists parent node definitions = some (node, definitions) := by
  unfold assignCallpath
  simp only [h]

theorem pathBelow_callable (h : node.Callable) : pathBelow node = node.callpathHandle := by
  unfold pathBelow
  obtain h | ⟨h, -⟩ := h <;> rw [h] <;> rfl

def AllPlain (t : Forest) : Prop := ∀ node ∈ t.elements, node.Plain

theorem allPlain_node : AllPlain (.node node current t) ↔ node.Plain ∧ AllPlain current ∧ AllPlain t := by
  unfold AllPlain
  simp only [Siblings.elements, forall_mem_cons, forall_mem_append]

/-! ## The master -/

theorem assignAll_spec (h : AllPlain t) : ∃ t' definitions',
    assignAll lists parent t definitions = some (t', definitions') ∧ definitions <+: definitions' ∧
      Named lists definitions' parent t' ∧ Fresh definitions.length definitions'.length (handles t') ∧
      t'.map Node.key = t.map Node.key := by
  induction t generalizing parent definitions with
  | nil => exact ⟨.nil, definitions, rfl, prefix_refl _, trivial, .nil, rfl⟩
  | node node children siblings ihc ihs =>
    obtain ⟨hplain, hchildren, hsiblings⟩ := allPlain_node.1 h
    have hassign := @assignCallpath_plain lists definitions parent node hplain
    obtain ⟨node', hnode'⟩ : ∃ node', node' = { node with callpathHandle := some definitions.length } :=
      ⟨_, rfl⟩
    obtain ⟨defs₁, hdefs₁⟩ : ∃ defs₁, defs₁ =
      definitions ++ [⟨parent, (node.step lists).1, (node.step lists).2⟩] := ⟨_, rfl⟩
    rw [← hnode', ← hdefs₁] at hassign
    have hcallable' : node'.Callable := by
      rw [hnode']
      exact hplain.1
    have hget : defs₁[definitions.length]? = some ⟨parent, (node'.step lists).1, (node'.step lists).2⟩ := by
      rw [hdefs₁, hnode']
      exact getElem?_concat_length
    have hlength : defs₁.length = definitions.length + 1 := by rw [hdefs₁, length_append]; rfl
    have hgrown : definitions <+: defs₁ := by
      rw [hdefs₁]
      exact prefix_append _ _
    obtain ⟨children', defs₂, hrunc, hgrownc, hnamedc, hfreshc, hmapc⟩ :=
      @ihc defs₁ node'.callpathHandle hchildren
    obtain ⟨siblings', defs₃, hruns, hgrowns, hnameds, hfreshs, hmaps⟩ := @ihs defs₂ parent hsiblings
    refine ⟨.node node' children' siblings', defs₃, ?_, (hgrown.trans hgrownc).trans hgrowns,
      ⟨⟨hcallable', definitions.length, by rw [hnode'], ?_⟩, hnamedc.mono hgrowns, hnameds⟩, ?_, ?_⟩
    · simp [assignAll, hassign, pathBelow_callable hcallable', hrunc, hruns]
    · exact getElem?_of_isPrefix hgrowns (getElem?_of_isPrefix hgrownc hget)
    · have hlec := hgrownc.length_le
      have hles := hgrowns.length_le
      have hone : Fresh definitions.length defs₁.length [node'.callpathHandle] := by
        rw [hlength, hnode']
        exact .one
      rw [handles_node]
      exact hone.append (hfreshc.append hfreshs hlec hles) (by omega) (by omega)
    · rw [Siblings.map, Siblings.map, hmapc, hmaps, hnode']
      rfl

/-! ## A worker -/

def Covered (t master : Forest) : Prop :=
  ∀ keys node, Siblings.At Node.key t keys node →
    ∃ node', Siblings.At Node.key master keys node' ∧ node'.callpathHandle = node.callpathHandle

/-- The child that `scorep_profile_find_create_child` gives: an old one that came to stand first, or a new
one that no child compares equal to. -/
theorem findCreateChild_spec {nodeType : NodeType} {data : TypeData} {timestamp : ℕ} {found : Node}
    {inner others : Forest} (h : findCreateChild nodeType data timestamp master = (found, inner, others)) :
    found.key = typeKey nodeType data ∧ master.toList.Perm ((found, inner) :: others.toList) ∨
      found = ⟨nodeType, data, timestamp, none⟩ ∧ inner = .nil ∧ others = master ∧
        ∀ x ∈ master.toList, x.1.key ≠ typeKey nodeType data := by
  unfold findCreateChild at h
  have hkey : ∀ child : Node, child.nodeType = nodeType ∧
      compareTypeData data child.typeSpecificData nodeType = true ↔ child.key = typeKey nodeType data := by
    intro child
    constructor
    · rintro ⟨htype, hcompare⟩
      unfold Node.key
      rw [htype]
      exact (compareTypeData_iff.1 hcompare).symm
    · intro heq
      have htype : child.nodeType = nodeType := by
        have hfirst := congrArg Prod.fst heq
        unfold Node.key at hfirst
        rwa [typeKey_type, typeKey_type] at hfirst
      refine ⟨htype, compareTypeData_iff.2 ?_⟩
      unfold Node.key at heq
      rw [htype] at heq
      exact heq.symm
  cases hextract : Siblings.extract (fun child : Node => decide (child.nodeType = nodeType ∧
      compareTypeData data child.typeSpecificData nodeType = true)) master with
  | none =>
    rw [hextract] at h
    obtain ⟨rfl, rfl, rfl⟩ : (⟨nodeType, data, timestamp, none⟩ : Node) = found ∧ Siblings.nil = inner ∧
        master = others := by simpa using h
    refine Or.inr ⟨rfl, rfl, rfl, fun x hx heq => ?_⟩
    have hnot := Siblings.extract_none hextract x hx
    exact (of_decide_eq_false hnot) ((hkey x.1).2 heq)
  | some result =>
    rw [hextract] at h
    subst h
    obtain ⟨hfound, hperm⟩ := Siblings.extract_some hextract
    exact Or.inl ⟨(hkey found).1 (of_decide_eq_true hfound), hperm⟩

structure Found (lists : ℕ → List Parameter) (parent : Option ℕ) (definitions : List CallpathDef)
    (master : Forest) (type : NodeType × TypeData) (definitions' : List CallpathDef) (found : Node)
    (inner others : Forest) : Prop where
  isPrefix : definitions <+: definitions'
  named : Named lists definitions' parent (.node found inner others)
  key : found.key = type
  fresh : ∃ new, (handles (.node found inner others)).Perm (handles master ++ new) ∧
    Fresh definitions.length definitions'.length new
  kept : ∀ keys node, Siblings.At Node.key master keys node →
    Siblings.At Node.key (.node found inner others) keys node
  came : ∀ keys node, Siblings.At Node.key (.node found inner others) keys node →
    Siblings.At Node.key master keys node ∨ keys = [type]
  apart : Siblings.Apart Node.key (.node found inner others) ↔ Siblings.Apart Node.key master

theorem found_spec (h : Named lists definitions parent master) (hplain : node.Plain) :
    ∃ found found' inner others definitions', findCreateChild node.nodeType node.typeSpecificData
        node.firstEnterTime master = (found, inner, others) ∧
      assignCallpath lists parent found definitions = some (found', definitions') ∧
      Found lists parent definitions master node.key definitions' found' inner others := by
  obtain ⟨found, inner, others, hfind⟩ : ∃ found inner others, findCreateChild node.nodeType
    node.typeSpecificData node.firstEnterTime master = (found, inner, others) := ⟨_, _, _, rfl⟩
  obtain ⟨hkey, hperm⟩ | ⟨hnew, hinner, hothers, hne⟩ := findCreateChild_spec hfind
  · -- an old child
    have hperm' : (Siblings.node found inner others).toList.Perm master.toList := hperm.symm
    have hnamed := (named_perm hperm').2 h
    obtain ⟨-, handle, hhandle, -⟩ := hnamed.1
    refine ⟨found, found, inner, others, definitions, hfind, assignCallpath_some hhandle,
      ⟨prefix_refl _, hnamed, hkey, ⟨[], ?_, .nil⟩, fun keys node hat => ?_,
        fun keys node hat => Or.inl ?_, Siblings.apart_perm hperm'⟩⟩
    · rw [append_nil]
      exact handles_perm hperm'
    · exact (Siblings.at_perm hperm').2 hat
    · exact (Siblings.at_perm hperm').1 hat
  · -- a new child
    subst hinner hothers
    have hplain' : found.Plain := by
      rw [hnew]
      exact ⟨hplain.1, rfl⟩
    have hkey : found.key = node.key := by
      rw [hnew]
      rfl
    obtain ⟨defs₁, hdefs₁⟩ : ∃ defs₁, defs₁ =
      definitions ++ [⟨parent, (found.step lists).1, (found.step lists).2⟩] := ⟨_, rfl⟩
    have hgrown : definitions <+: defs₁ := by
      rw [hdefs₁]
      exact prefix_append _ _
    refine ⟨found, { found with callpathHandle := some definitions.length }, .nil, others, defs₁, hfind,
      by rw [hdefs₁]; exact assignCallpath_plain hplain',
      ⟨hgrown, ⟨⟨hplain'.1, definitions.length, rfl, ?_⟩, trivial, h.mono hgrown⟩, hkey,
        ⟨[some definitions.length], ?_, ?_⟩, fun keys node hat => hat.beside,
        fun keys node hat => ?_, fun hapart => hapart.2.2,
        fun hapart => ⟨fun x hx => ?_, trivial, hapart⟩⟩⟩
    · rw [hdefs₁]
      exact getElem?_concat_length
    · rw [handles_node]
      exact @perm_append_comm _ [some definitions.length] (handles others)
    · have hlength : defs₁.length = definitions.length + 1 := by rw [hdefs₁, length_append]; rfl
      rw [hlength]
      exact .one
    · cases hat with
      | here => exact Or.inr (by rw [← hkey]; rfl)
      | inside hat => exact nomatch hat
      | beside hat => exact Or.inl hat
    · have hother := hne x hx
      rw [show typeKey node.nodeType node.typeSpecificData = found.key from hkey.symm] at hother
      exact hother

structure Matched (lists : ℕ → List Parameter) (parent : Option ℕ) (current master : Forest)
    (definitions : List CallpathDef) (current' master' : Forest) (definitions' : List CallpathDef) :
    Prop where
  isPrefix : definitions <+: definitions'
  named : Named lists definitions' parent master'
  namedCurrent : Named lists definitions' parent current'
  fresh : ∃ new, (handles master').Perm (handles master ++ new) ∧
    Fresh definitions.length definitions'.length new
  kept : ∀ keys node, Siblings.At Node.key master keys node → Siblings.At Node.key master' keys node
  came : ∀ keys node, Siblings.At Node.key master' keys node →
    (∃ a, Siblings.At Node.key master keys a) ∨ ∃ a, Siblings.At Node.key current keys a
  covered : Covered current' master'
  keys : current'.map Node.key = current.map Node.key
  apart : Siblings.Apart Node.key master' ↔ Siblings.Apart Node.key master

theorem matchCallpaths_spec (h : Named lists definitions parent master) (hplain : AllPlain current) :
    ∃ current' master' definitions', matchCallpaths lists parent current master definitions =
        some (current', master', definitions') ∧
      Matched lists parent current master definitions current' master' definitions' := by
  induction current generalizing parent definitions master with
  | nil =>
    exact ⟨.nil, master, definitions, rfl, prefix_refl _, h, trivial,
      ⟨[], by rw [append_nil], .nil⟩, fun _ _ hat => hat, fun _ node hat => Or.inl ⟨node, hat⟩,
      (fun _ _ hat => nomatch hat), rfl, Iff.rfl⟩
  | node node children siblings ihc ihs =>
    obtain ⟨hnode, hchildren, hsiblings⟩ := allPlain_node.1 hplain
    obtain ⟨found, found', inner, others, defs₁, hfind, hassign, hfound⟩ := found_spec h hnode
    obtain ⟨⟨hcallable, handle, hhandle, hget⟩, hnamedInner, hnamedOthers⟩ := hfound.named
    obtain ⟨children', inner', defs₂, hrunc, hc⟩ := @ihc defs₁ found'.callpathHandle inner hnamedInner
      hchildren
    have hnamed₂ : Named lists defs₂ parent (.node found' inner' others) :=
      ⟨⟨hcallable, handle, hhandle, getElem?_of_isPrefix hc.isPrefix hget⟩, hc.named,
        hnamedOthers.mono hc.isPrefix⟩
    obtain ⟨siblings', master', defs₃, hruns, hs⟩ := @ihs defs₂ parent (.node found' inner' others)
      hnamed₂ hsiblings
    have hstep : node.step lists = found'.step lists :=
      callable_step_eq hnode.1 hcallable hfound.key.symm
    have hkept : ∀ keys a, Siblings.At Node.key (.node found' inner others) keys a →
        Siblings.At Node.key (.node found' inner' others) keys a := by
      intro keys a hat
      cases hat with
      | here => exact .here
      | inside hat => exact .inside (hc.kept _ _ hat)
      | beside hat => exact .beside hat
    refine ⟨.node { node with callpathHandle := found'.callpathHandle } children' siblings', master',
      defs₃, ?_, ⟨(hfound.isPrefix.trans hc.isPrefix).trans hs.isPrefix, hs.named,
        ⟨⟨hnode.1, handle, hhandle, ?_⟩, hc.namedCurrent.mono hs.isPrefix, hs.namedCurrent⟩, ?_,
        fun keys a hat => hs.kept _ _ (hkept _ _ (hfound.kept _ _ hat)), fun keys a hat => ?_,
        fun keys a hat => ?_, ?_, (hs.apart.trans ?_).trans hfound.apart⟩⟩
    · simp [matchCallpaths, hfind, hassign, pathBelow_callable hcallable, hrunc, hruns]
    · rw [show ({ node with callpathHandle := found'.callpathHandle } : Node).step lists =
        found'.step lists from hstep]
      exact getElem?_of_isPrefix (hc.isPrefix.trans hs.isPrefix) hget
    · -- the new handles of the node itself, of its children and of its siblings
      obtain ⟨new₁, hperm₁, hfresh₁⟩ := hfound.fresh
      obtain ⟨new₂, hperm₂, hfresh₂⟩ := hc.fresh
      obtain ⟨new₃, hperm₃, hfresh₃⟩ := hs.fresh
      have hle₁ := hfound.isPrefix.length_le
      have hle₂ := hc.isPrefix.length_le
      have hle₃ := hs.isPrefix.length_le
      refine ⟨new₁ ++ new₂ ++ new₃, ?_, (hfresh₁.append hfresh₂ hle₁ hle₂).append hfresh₃ (by omega) hle₃⟩
      rw [handles_node] at hperm₁ hperm₃
      have hinner : (found'.callpathHandle :: (handles inner' ++ handles others)).Perm
          (found'.callpathHandle :: (handles inner ++ handles others) ++ new₂) := by
        refine (List.Perm.cons _ (hperm₂.append_right _)).trans ?_
        rw [cons_append, append_assoc, append_assoc]
        exact ((perm_append_comm).append_left _).cons _
      refine hperm₃.trans ?_
      rw [← append_assoc]
      refine List.Perm.append_right _ (hinner.trans ?_)
      rw [← append_assoc]
      exact hperm₁.append_right _
    · obtain ⟨b, hb⟩ | ⟨b, hb⟩ := hs.came keys a hat
      · cases hb with
        | here => exact Or.inr ⟨node, by rw [hfound.key]; exact .here⟩
        | inside hb =>
          obtain ⟨c, hcAt⟩ | ⟨c, hcAt⟩ := hc.came _ _ hb
          · obtain hold | hone := hfound.came _ _ (.inside hcAt : Siblings.At Node.key
              (.node found' inner others) _ c)
            · exact Or.inl ⟨c, hold⟩
            · exact absurd (List.cons.inj hone).2 hcAt.ne_nil
          · refine Or.inr ⟨c, ?_⟩
            rw [hfound.key]
            exact hcAt.inside
        | beside hb =>
          obtain hold | hone := hfound.came _ _ (.beside hb : Siblings.At Node.key
            (.node found' inner others) _ b)
          · exact Or.inl ⟨b, hold⟩
          · exact Or.inr ⟨node, by rw [hone]; exact .here⟩
      · exact Or.inr ⟨b, hb.beside⟩
    · have hkey : ({ node with callpathHandle := found'.callpathHandle } : Node).key = found'.key :=
        hfound.key.symm
      cases hat with
      | here =>
        rw [hkey]
        exact ⟨found', hs.kept _ _ .here, rfl⟩
      | inside hat =>
        obtain ⟨b, hb, hbHandle⟩ := hc.covered _ _ hat
        rw [hkey]
        exact ⟨b, hs.kept _ _ hb.inside, hbHandle⟩
      | beside hat => exact hs.covered _ _ hat
    · rw [Siblings.map, Siblings.map, hc.keys, hs.keys]
      rfl
    · rw [Siblings.Apart, Siblings.Apart, hc.apart]

end ScoreP.Callpath

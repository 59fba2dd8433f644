import Mathlib.Data.List.Nodup
import Mathlib.Data.List.Perm.Basic

/-!
# Trees as first child and next sibling

A value of `Siblings` is a list of siblings, each with the list of its children. `At` says which element
stands at a path of keys, `Apart` that siblings have different keys, so that a path leads to one element
(`Apart.at_unique`). Reordering siblings changes none of it (`at_perm`, `apart_perm`).
-/

namespace Foundations

open List

inductive Siblings (α : Type) where
  | nil
  | node (a : α) (children siblings : Siblings α)
deriving DecidableEq

namespace Siblings

variable {α κ : Type} {t t' children siblings : Siblings α} {a b : α} {p : List κ} {k : κ}

def toList : Siblings α → List (α × Siblings α)
  | nil => []
  | node a children siblings => (a, children) :: siblings.toList

def ofList : List (α × Siblings α) → Siblings α
  | [] => nil
  | (a, children) :: rest => node a children (ofList rest)

@[simp] theorem toList_ofList (l : List (α × Siblings α)) : (ofList l).toList = l := by
  induction l with
  | nil => rfl
  | cons x l ih => rw [ofList, toList, ih]

def elements : Siblings α → List α
  | nil => []
  | node a children siblings => a :: (children.elements ++ siblings.elements)

theorem elements_eq_flatMap (t : Siblings α) : t.elements = t.toList.flatMap fun x => x.1 :: x.2.elements := by
  induction t with
  | nil => rfl
  | node a children siblings _ ih =>
    rw [elements, toList, flatMap_cons, ih, cons_append]

theorem elements_perm (h : t'.toList.Perm t.toList) : t'.elements.Perm t.elements := by
  rw [elements_eq_flatMap, elements_eq_flatMap]
  exact h.flatMap_right _

def postorder : Siblings α → List α
  | nil => []
  | node a children siblings => children.postorder ++ a :: siblings.postorder

/-! ## Trees in a heap -/

def Stored (first next : α → Option α) : Option α → Siblings α → Prop
  | p, nil => p = none
  | p, node a children siblings =>
    p = some a ∧ Stored first next (first a) children ∧ Stored first next (next a) siblings

theorem Stored.congr {first first' next next' : α → Option α} {p : Option α} (h : Stored first next p t)
    (hfirst : ∀ a ∈ t.postorder, first' a = first a) (hnext : ∀ a ∈ t.postorder, next' a = next a) :
    Stored first' next' p t := by
  induction t generalizing p with
  | nil => exact h
  | node a children siblings ihc ihs =>
    have hchildren : ∀ b ∈ children.postorder, b ∈ (node a children siblings).postorder :=
      fun b hb => mem_append_left _ hb
    have hsiblings : ∀ b ∈ siblings.postorder, b ∈ (node a children siblings).postorder :=
      fun b hb => mem_append_right _ (mem_cons_of_mem a hb)
    have ha : a ∈ (node a children siblings).postorder := mem_append_right _ mem_cons_self
    refine ⟨h.1, ?_, ?_⟩
    · rw [hfirst a ha]
      exact ihc h.2.1 (fun b hb => hfirst b (hchildren b hb)) fun b hb => hnext b (hchildren b hb)
    · rw [hnext a ha]
      exact ihs h.2.2 (fun b hb => hfirst b (hsiblings b hb)) fun b hb => hnext b (hsiblings b hb)

section At

variable (key : α → κ)

inductive At : Siblings α → List κ → α → Prop
  | here {a : α} {children siblings : Siblings α} : At (node a children siblings) [key a] a
  | inside {a b : α} {children siblings : Siblings α} {p : List κ} (h : At children p b) :
      At (node a children siblings) (key a :: p) b
  | beside {a b : α} {children siblings : Siblings α} {p : List κ} (h : At siblings p b) :
      At (node a children siblings) p b

def Apart : Siblings α → Prop
  | nil => True
  | node a children siblings =>
    (∀ x ∈ siblings.toList, key x.1 ≠ key a) ∧ children.Apart ∧ siblings.Apart

variable {key}

theorem At.ne_nil (h : At key t p a) : p ≠ [] := by
  induction h with
  | here => exact cons_ne_nil _ _
  | inside => exact cons_ne_nil _ _
  | beside _ ih => exact ih

theorem At.mem (h : At key t p a) : a ∈ t.elements := by
  induction h with
  | here => exact mem_cons_self
  | inside _ ih => exact mem_cons_of_mem _ (mem_append_left _ ih)
  | beside _ ih => exact mem_cons_of_mem _ (mem_append_right _ ih)

theorem exists_at (h : a ∈ t.elements) : ∃ p, At key t p a := by
  induction t with
  | nil => exact absurd h not_mem_nil
  | node b children siblings ihc ihs =>
    obtain rfl | h := mem_cons.1 h
    · exact ⟨_, .here⟩
    · obtain h | h := mem_append.1 h
      · obtain ⟨p, hp⟩ := ihc h
        exact ⟨_, hp.inside⟩
      · obtain ⟨p, hp⟩ := ihs h
        exact ⟨p, hp.beside⟩

theorem at_iff : At key t p a ↔ ∃ x ∈ t.toList, ∃ q, p = key x.1 :: q ∧
    (q = [] ∧ a = x.1 ∨ At key x.2 q a) := by
  constructor
  · intro h
    induction h with
    | here => exact ⟨_, mem_cons_self, [], rfl, Or.inl ⟨rfl, rfl⟩⟩
    | inside h _ => exact ⟨_, mem_cons_self, _, rfl, Or.inr h⟩
    | beside _ ih =>
      obtain ⟨x, hx, rest⟩ := ih
      exact ⟨x, mem_cons_of_mem _ hx, rest⟩
  · induction t with
    | nil =>
      rintro ⟨x, hx, -⟩
      exact absurd hx not_mem_nil
    | node b children siblings _ ih =>
      rintro ⟨x, hx, q, rfl, hq⟩
      obtain rfl | hx := mem_cons.1 hx
      · obtain ⟨rfl, rfl⟩ | hq := hq
        · exact .here
        · exact hq.inside
      · exact (ih ⟨x, hx, q, rfl, hq⟩).beside

theorem at_perm (h : t'.toList.Perm t.toList) : At key t' p a ↔ At key t p a := by
  rw [at_iff, at_iff]
  constructor
  · rintro ⟨x, hx, rest⟩
    exact ⟨x, h.mem_iff.1 hx, rest⟩
  · rintro ⟨x, hx, rest⟩
    exact ⟨x, h.mem_iff.2 hx, rest⟩

theorem apart_iff : Apart key t ↔ (t.toList.map fun x => key x.1).Nodup ∧ ∀ x ∈ t.toList, Apart key x.2 := by
  induction t with
  | nil => simp [Apart, toList]
  | node a children siblings _ ih =>
    rw [Apart, ih, toList, map_cons, nodup_cons, forall_mem_cons]
    have hnot : (∀ x ∈ siblings.toList, key x.1 ≠ key a) ↔
        key a ∉ siblings.toList.map fun x => key x.1 := by
      rw [mem_map]
      constructor
      · rintro h ⟨x, hx, heq⟩
        exact h x hx heq
      · exact fun h x hx heq => h ⟨x, hx, heq⟩
    rw [hnot]
    tauto

theorem apart_perm (h : t'.toList.Perm t.toList) : Apart key t' ↔ Apart key t := by
  rw [apart_iff, apart_iff, (h.map _).nodup_iff]
  constructor
  · exact fun hall => ⟨hall.1, fun x hx => hall.2 x (h.mem_iff.2 hx)⟩
  · exact fun hall => ⟨hall.1, fun x hx => hall.2 x (h.mem_iff.1 hx)⟩

theorem Apart.at_unique (h : Apart key t) (ha : At key t p a) (hb : At key t p b) : a = b := by
  induction ha with
  | here =>
    cases hb with
    | here => rfl
    | inside hb => exact absurd rfl hb.ne_nil
    | beside hb =>
      obtain ⟨x, hx, q, heq, -⟩ := at_iff.1 hb
      exact absurd (List.cons.inj heq).1.symm (h.1 x hx)
  | inside ha ih =>
    cases hb with
    | here => exact absurd rfl ha.ne_nil
    | inside hb => exact ih h.2.1 hb
    | beside hb =>
      obtain ⟨x, hx, q, heq, -⟩ := at_iff.1 hb
      exact absurd (List.cons.inj heq).1.symm (h.1 x hx)
  | beside ha ih =>
    obtain ⟨x, hx, q, rfl, -⟩ := at_iff.1 ha
    generalize hp : key x.1 :: q = p at ha hb ih
    cases hb with
    | here => exact absurd (List.cons.inj hp).1 (h.1 x hx)
    | inside hb => exact absurd (List.cons.inj hp).1 (h.1 x hx)
    | beside hb => exact ih h.2.2 hb

end At

section Labels

variable {γ : Type} {label : α → γ} {key : α → κ} {q : List κ}

theorem nodup_node : ((node a children siblings).elements.map label).Nodup ↔
    (∀ b ∈ children.elements ++ siblings.elements, label b ≠ label a) ∧
      (children.elements.map label).Nodup ∧ (siblings.elements.map label).Nodup ∧
      ∀ b ∈ children.elements, ∀ c ∈ siblings.elements, label b ≠ label c := by
  have hnot : label a ∉ (children.elements ++ siblings.elements).map label ↔
      ∀ b ∈ children.elements ++ siblings.elements, label b ≠ label a := by
    rw [mem_map]
    constructor
    · exact fun h b hb heq => h ⟨b, hb, heq⟩
    · rintro h ⟨b, hb, heq⟩
      exact h b hb heq
  rw [elements, map_cons, nodup_cons, hnot, map_append, nodup_append]
  simp

theorem at_injective (h : (t.elements.map label).Nodup) (ha : At key t p a) (hb : At key t q b)
    (hlabel : label a = label b) : p = q := by
  induction ha generalizing q with
  | here =>
    obtain ⟨hne, -⟩ := nodup_node.1 h
    cases hb with
    | here => rfl
    | inside hb => exact absurd hlabel.symm (hne b (mem_append_left _ hb.mem))
    | beside hb => exact absurd hlabel.symm (hne b (mem_append_right _ hb.mem))
  | inside ha ih =>
    obtain ⟨hne, hchildren, -, hacross⟩ := nodup_node.1 h
    cases hb with
    | here => exact absurd hlabel (hne _ (mem_append_left _ ha.mem))
    | inside hb => rw [ih hchildren hb hlabel]
    | beside hb => exact absurd hlabel (hacross _ ha.mem b hb.mem)
  | beside ha ih =>
    obtain ⟨hne, -, hsiblings, hacross⟩ := nodup_node.1 h
    cases hb with
    | here => exact absurd hlabel (hne _ (mem_append_right _ ha.mem))
    | inside hb => exact absurd hlabel.symm (hacross b hb.mem _ ha.mem)
    | beside hb => exact ih hsiblings hb hlabel

theorem mem_elements {x : α × Siblings α} (h : x ∈ t.toList) : x.1 ∈ t.elements := by
  rw [elements_eq_flatMap]
  exact mem_flatMap.2 ⟨x, h, mem_cons_self⟩

theorem apart_of_nodup (h : (t.elements.map label).Nodup) : Apart label t := by
  induction t with
  | nil => trivial
  | node a children siblings ihc ihs =>
    obtain ⟨hne, hchildren, hsiblings, -⟩ := nodup_node.1 h
    exact ⟨fun x hx => hne _ (mem_append_right _ (mem_elements hx)), ihc hchildren, ihs hsiblings⟩

theorem apart_of_at (h : (t.elements.map label).Nodup)
    (hsame : ∀ p a b, At key t p a → At key t p b → label a = label b) : Apart key t := by
  induction t with
  | nil => trivial
  | node a children siblings ihc ihs =>
    obtain ⟨hne, hchildren, hsiblings, -⟩ := nodup_node.1 h
    refine ⟨fun x hx heq => ?_, ihc hchildren fun p b c hb hc => hsame _ b c hb.inside hc.inside,
      ihs hsiblings fun p b c hb hc => hsame p b c hb.beside hc.beside⟩
    have hat : At key siblings [key a] x.1 := at_iff.2 ⟨x, hx, [], by rw [heq], Or.inl ⟨rfl, rfl⟩⟩
    exact hne x.1 (mem_append_right _ (mem_elements hx)) (hsame _ _ _ hat.beside .here)

end Labels

/-! ## Trees with the same keys -/

def map {β : Type} (f : α → β) : Siblings α → Siblings β
  | nil => nil
  | node a children siblings => node (f a) (children.map f) (siblings.map f)

section Keys

variable {key : α → κ}

theorem exists_at_of_map_eq (h : t'.map key = t.map key) (ha : At key t p a) : ∃ b, At key t' p b := by
  induction ha generalizing t' with
  | here =>
    cases t' with
    | nil => exact nomatch h
    | node b children' siblings' =>
      obtain ⟨hkey, -, -⟩ := Siblings.node.inj h
      rw [← hkey]
      exact ⟨b, .here⟩
  | inside _ ih =>
    cases t' with
    | nil => exact nomatch h
    | node b children' siblings' =>
      obtain ⟨hkey, hchildren, -⟩ := Siblings.node.inj h
      obtain ⟨c, hc⟩ := ih hchildren
      rw [← hkey]
      exact ⟨c, hc.inside⟩
  | beside _ ih =>
    cases t' with
    | nil => exact nomatch h
    | node b children' siblings' =>
      obtain ⟨-, -, hsiblings⟩ := Siblings.node.inj h
      obtain ⟨c, hc⟩ := ih hsiblings
      exact ⟨c, hc.beside⟩

theorem keys_of_map_eq (h : t'.map key = t.map key) :
    (t'.toList.map fun x => key x.1) = t.toList.map fun x => key x.1 := by
  induction t generalizing t' with
  | nil =>
    cases t' with
    | nil => rfl
    | node b children' siblings' => exact nomatch h
  | node a children siblings _ ih =>
    cases t' with
    | nil => exact nomatch h
    | node b children' siblings' =>
      obtain ⟨hkey, -, hsiblings⟩ := Siblings.node.inj h
      rw [toList, toList, map_cons, map_cons, ih hsiblings, hkey]

theorem apart_of_map_eq (h : t'.map key = t.map key) (hapart : Apart key t) : Apart key t' := by
  induction t generalizing t' with
  | nil =>
    cases t' with
    | nil => trivial
    | node b children' siblings' => exact nomatch h
  | node a children siblings ihc ihs =>
    cases t' with
    | nil => exact nomatch h
    | node b children' siblings' =>
      obtain ⟨hkey, hchildren, hsiblings⟩ := Siblings.node.inj h
      refine ⟨fun x hx heq => ?_, ihc hchildren hapart.2.1, ihs hsiblings hapart.2.2⟩
      have hmem : key a ∈ siblings.toList.map fun x => key x.1 := by
        rw [← keys_of_map_eq hsiblings, ← hkey, ← heq]
        exact mem_map_of_mem hx
      obtain ⟨y, hy, hya⟩ := mem_map.1 hmem
      exact hapart.1 y hy hya

end Keys

/-! ## Taking one of the siblings out -/

def extract (found : α → Bool) : Siblings α → Option (α × Siblings α × Siblings α)
  | nil => none
  | node a children siblings =>
    if found a then some (a, children, siblings)
    else (siblings.extract found).map fun (b, inner, rest) => (b, inner, node a children rest)

theorem extract_none {found : α → Bool} (h : t.extract found = none) : ∀ x ∈ t.toList, found x.1 = false := by
  induction t with
  | nil => exact fun x hx => absurd hx not_mem_nil
  | node a children siblings _ ih =>
    rw [extract] at h
    by_cases ha : found a = true
    · rw [if_pos ha] at h
      exact nomatch h
    · rw [if_neg ha, Option.map_eq_none_iff] at h
      intro x hx
      obtain rfl | hx := mem_cons.1 hx
      · exact Bool.eq_false_iff.2 ha
      · exact ih h x hx

theorem extract_some {found : α → Bool} {inner rest : Siblings α}
    (h : t.extract found = some (a, inner, rest)) :
    found a = true ∧ t.toList.Perm ((a, inner) :: rest.toList) := by
  induction t generalizing rest with
  | nil => exact nomatch h
  | node b children siblings _ ih =>
    rw [extract] at h
    by_cases hb : found b = true
    · rw [if_pos hb] at h
      obtain ⟨rfl, rfl, rfl⟩ : b = a ∧ children = inner ∧ siblings = rest := by simpa using h
      exact ⟨hb, .refl _⟩
    · rw [if_neg hb, Option.map_eq_some_iff] at h
      obtain ⟨⟨c, inner', rest'⟩, hextract, heq⟩ := h
      obtain ⟨rfl, rfl, rfl⟩ : c = a ∧ inner' = inner ∧ node b children rest' = rest := by simpa using heq
      obtain ⟨hfound, hperm⟩ := ih hextract
      exact ⟨hfound, (hperm.cons (b, children)).trans (List.Perm.swap _ _ _)⟩

/-! ## Sorting the siblings at every level -/

/-- The first list of siblings in the order of `le`. -/
def sortFirst (le : α → α → Bool) (t : Siblings α) : Siblings α :=
  ofList (t.toList.mergeSort fun x y => le x.1 y.1)

/-- The children of each of the siblings, and so on, in the order of `le`. -/
def sortBelow (le : α → α → Bool) : Siblings α → Siblings α
  | nil => nil
  | node a children siblings =>
    node a ((children.sortBelow le).sortFirst le) (siblings.sortBelow le)

theorem sortFirst_perm (le : α → α → Bool) (t : Siblings α) : (t.sortFirst le).toList.Perm t.toList := by
  rw [sortFirst, toList_ofList]
  exact mergeSort_perm _ _

theorem elements_sortBelow (le : α → α → Bool) (t : Siblings α) :
    (t.sortBelow le).elements.Perm t.elements := by
  induction t with
  | nil => exact .refl _
  | node a children siblings ihc ihs =>
    exact (((elements_perm (sortFirst_perm le _)).trans ihc).append ihs).cons a

variable {key : α → κ}

theorem at_sortBelow (le : α → α → Bool) : At key (t.sortBelow le) p a ↔ At key t p a := by
  induction t generalizing p with
  | nil => exact Iff.rfl
  | node b children siblings ihc ihs =>
    have hchildren : ∀ q, At key ((children.sortBelow le).sortFirst le) q a ↔ At key children q a :=
      fun q => (at_perm (sortFirst_perm le _)).trans ihc
    constructor
    · intro h
      cases h with
      | here => exact .here
      | inside h => exact .inside ((hchildren _).1 h)
      | beside h => exact .beside (ihs.1 h)
    · intro h
      cases h with
      | here => exact .here
      | inside h => exact .inside ((hchildren _).2 h)
      | beside h => exact .beside (ihs.2 h)

theorem map_sortBelow (le : α → α → Bool) (t : Siblings α) :
    (t.sortBelow le).toList = t.toList.map fun x => (x.1, (x.2.sortBelow le).sortFirst le) := by
  induction t with
  | nil => rfl
  | node a children siblings _ ih => rw [sortBelow, toList, ih, toList, map_cons]

theorem apart_sortBelow (le : α → α → Bool) : Apart key (t.sortBelow le) ↔ Apart key t := by
  induction t with
  | nil => exact Iff.rfl
  | node b children siblings ihc ihs =>
    rw [sortBelow, Apart, Apart, ihs, apart_perm (sortFirst_perm le _), ihc, map_sortBelow]
    simp only [forall_mem_map]

/-! ## Sorted trees in a heap -/

def pairs : Siblings α → List (α × Siblings α)
  | nil => []
  | node a children siblings => (a, children) :: (children.pairs ++ siblings.pairs)

theorem pairs_eq_flatMap (t : Siblings α) : t.pairs = t.toList.flatMap fun x => x :: x.2.pairs := by
  induction t with
  | nil => rfl
  | node a children siblings _ ih => rw [pairs, toList, flatMap_cons, ih, cons_append]

theorem elements_eq_map_pairs (t : Siblings α) : t.elements = t.pairs.map Prod.fst := by
  induction t with
  | nil => rfl
  | node a children siblings ihc ihs =>
    rw [elements, pairs, map_cons, map_append, ihc, ihs]

theorem mem_postorder : a ∈ t.postorder ↔ a ∈ t.elements := by
  induction t with
  | nil => exact Iff.rfl
  | node b children siblings ihc ihs =>
    simp only [postorder, elements, mem_append, mem_cons, ihc, ihs]
    tauto

theorem mem_pairs_sortBelow (le : α → α → Bool) (h : (a, children) ∈ t.pairs) :
    (a, (children.sortBelow le).sortFirst le) ∈ (t.sortBelow le).pairs := by
  induction t with
  | nil => cases h
  | node b inner siblings ihc ihs =>
    rw [pairs, mem_cons, mem_append] at h
    rw [sortBelow, pairs, mem_cons, mem_append]
    rcases h with heq | hinner | hsiblings
    · cases heq
      exact .inl rfl
    · have hmem := ihc hinner
      rw [pairs_eq_flatMap] at hmem ⊢
      exact .inr (.inl ((sortFirst_perm le _).flatMap_right _ |>.mem_iff.2 hmem))
    · exact .inr (.inr (ihs hsiblings))

theorem keys_sortFirst (le : α → α → Bool) (t : Siblings α) :
    (t.sortFirst le).toList.map Prod.fst = (t.toList.map Prod.fst).mergeSort le := by
  rw [sortFirst, toList_ofList]
  exact map_mergeSort fun x _ y _ => rfl

theorem keys_sortBelow (le : α → α → Bool) (t : Siblings α) :
    (t.sortBelow le).toList.map Prod.fst = t.toList.map Prod.fst := by
  rw [map_sortBelow, map_map]
  rfl

theorem sortBelow_sortFirst (le : α → α → Bool) (t : Siblings α) :
    ((t.sortFirst le).sortBelow le).toList = ((t.sortBelow le).sortFirst le).toList := by
  rw [map_sortBelow, sortFirst, toList_ofList, sortFirst, toList_ofList, map_sortBelow]
  exact map_mergeSort fun x _ y _ => rfl

theorem toList_injective (h : t.toList = t'.toList) : t = t' := by
  induction t generalizing t' with
  | nil =>
    cases t' with
    | nil => rfl
    | node b children' siblings' => cases h
  | node a children siblings _ ih =>
    cases t' with
    | nil => cases h
    | node b children' siblings' =>
      rw [toList, toList, List.cons.injEq, Prod.mk.injEq] at h
      rw [h.1.1, h.1.2, ih h.2]

end Siblings

end Foundations

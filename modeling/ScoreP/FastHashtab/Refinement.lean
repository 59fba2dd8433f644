import ScoreP.FastHashtab.Operations

/-!
# The table is a finite map

The abstract table is a function from the keys to the values, with equal keys mapped alike. Running
the same calls on the table and on the map gives the same results, without a fault, and leaves a
table that `Represents` the map: the traversal visits each pair of the map once, and the chunks are
where they belong (`run_represents`).
-/

namespace ScoreP.FastHashtab

open Foundations Function List

variable {K V : Type} {T : Template K} {t t' : Table K V} {m m' : K → Option V}

/-! ## Calls -/

/-- `stored` and `ctorValue` are what `prefix_value_ctor` produces if the key is inserted. -/
inductive Op (K V : Type)
  | get (key : K)
  | getAndInsert (key stored : K) (ctorValue : V)
  | remove (key : K)
  | getAndRemove (key : K)

inductive Result (V : Type)
  | get (value : Option V)
  | getAndInsert (value : V) (inserted : Bool)
  | remove (found : Bool)
  | getAndRemove (value : Option V)

/-- The constructor keeps the key, up to `prefix_equals`. -/
def Op.Legal (T : Template K) : Op K V → Prop
  | .getAndInsert key stored _ => T.equals key stored = true
  | _ => True

def Table.call (T : Template K) (t : Table K V) : Op K V → Option (Table K V × Result V)
  | .get key => (t.get T key).map fun value => (t, .get value)
  | .getAndInsert key stored ctorValue =>
    (t.getAndInsert T key stored ctorValue).map fun r => (r.1, .getAndInsert r.2.1 r.2.2)
  | .remove key => (t.remove T key).map fun r => (r.1, .remove r.2)
  | .getAndRemove key => (t.getAndRemove T key).map fun r => (r.1, .getAndRemove r.2)

def Table.run (T : Template K) (t : Table K V) : List (Op K V) → Option (Table K V × List (Op K V × Result V))
  | [] => some (t, [])
  | op :: ops => do
    let (t', result) ← t.call T op
    let (t'', log) ← Table.run T t' ops
    some (t'', (op, result) :: log)

/-! ## The abstract map -/

/-- All keys that are equal to `key` get the value. -/
def assign (T : Template K) (m : K → Option V) (key : K) (value : Option V) : K → Option V :=
  fun key' => if T.equals key key' then value else m key'

def mapCall (T : Template K) (m : K → Option V) : Op K V → (K → Option V) × Result V
  | .get key => (m, .get (m key))
  | .getAndInsert key _ ctorValue =>
    match m key with
    | some value => (m, .getAndInsert value false)
    | none => (assign T m key (some ctorValue), .getAndInsert ctorValue true)
  | .remove key => (assign T m key none, .remove (m key).isSome)
  | .getAndRemove key => (assign T m key none, .getAndRemove (m key))

def mapRun (T : Template K) (m : K → Option V) : List (Op K V) → (K → Option V) × List (Op K V × Result V)
  | [] => (m, [])
  | op :: ops =>
    let (m', result) := mapCall T m op
    let (m'', log) := mapRun T m' ops
    (m'', (op, result) :: log)

/-- The call inserted a pair into bucket `b`. -/
def usedBy (T : Template K) (op : Op K V) (result : Result V) (b : ℕ) : Prop :=
  ∃ key stored ctorValue value, op = .getAndInsert key stored ctorValue ∧
    result = .getAndInsert value true ∧ T.bucketIdx key = b

def Used (T : Template K) (log : List (Op K V × Result V)) (b : ℕ) : Prop :=
  ∃ entry ∈ log, usedBy T entry.1 entry.2 b

/-- The table stores the map. -/
structure Represents (T : Template K) (t : Table K V) (m : K → Option V)
    (log : List (Op K V × Result V)) : Prop where
  iterate : ∃ visited, t.iterateKeyValuePairs T = some visited ∧
    visited.Pairwise (fun x y => T.equals x.1 y.1 = false) ∧
    ∀ key value, m key = some value ↔ ∃ pair ∈ visited, T.equals key pair.1 = true ∧ pair.2 = value
  chunks : ∃ (chains : ℕ → List ℕ) (free : List ℕ),
    (∀ b < T.hashTableSize, Chain t.nextOf (t.hashTable b).chunk (chains b)) ∧
    Chain t.nextOf t.chunkFreeList free ∧
    ((List.range T.hashTableSize).flatMap chains ++ free).Nodup ∧
    ∀ b < T.hashTableSize, (Used T log b → (chains b).length =
        max 1 (((t.hashTable b).size + T.nPairsPerChunk - 1) / T.nPairsPerChunk)) ∧
      (¬ Used T log b → chains b = [])

/-! ## The invariant -/

structure Inv (T : Template K) (t : Table K V) (m : K → Option V) (used : ℕ → Prop)
    (chains : ℕ → List ℕ) (free : List ℕ) (pairs : ℕ → List (K × V)) : Prop where
  holds : Holds T t chains free pairs
  fits : ∀ b < T.hashTableSize, Fits T.nPairsPerChunk (pairs b).length (chains b).length
  nil_iff : ∀ b < T.hashTableSize, chains b = [] ↔ ¬ used b
  bucketIdx : ∀ b, ∀ pair ∈ pairs b, T.bucketIdx pair.1 = b
  distinct : ∀ b, (pairs b).Pairwise fun x y => T.equals x.1 y.1 = false
  maps : ∀ key value, m key = some value ↔
    ∃ pair ∈ pairs (T.bucketIdx key), T.equals key pair.1 = true ∧ pair.2 = value

theorem init_inv (T : Template K) : Inv T (Table.init : Table K V) (fun _ => none) (fun _ => False)
    (fun _ => []) [] (fun _ => []) where
  holds := init_holds T
  fits := fun _ _ => ⟨by simp, by simp⟩
  nil_iff := by simp
  bucketIdx := by simp
  distinct := by simp
  maps := by simp

section Step

variable {used : ℕ → Prop} {chains : ℕ → List ℕ} {free : List ℕ} {pairs : ℕ → List (K × V)}

theorem Inv.represents (hT : T.Lawful) {log : List (Op K V × Result V)}
    (h : Inv T t m (Used T log) chains free pairs) : Represents T t m log where
  iterate := by
    refine ⟨_, iterateKeyValuePairs_spec h.holds h.fits, ?_, ?_⟩
    · refine pairwise_flatMap.2 ⟨fun b _ => h.distinct b, ?_⟩
      refine pairwise_lt_range.imp fun hlt x hx y hy => ?_
      by_contra heq
      have hbucket := hT.bucketIdx_eq _ _ (eq_true_of_ne_false heq)
      rw [h.bucketIdx _ x hx, h.bucketIdx _ y hy] at hbucket
      omega
    · intro key value
      rw [h.maps]
      constructor
      · intro hex
        obtain ⟨pair, hmem, hpair⟩ := hex
        exact ⟨pair, mem_flatMap.2 ⟨_, mem_range.2 (hT.bucketIdx_lt key), hmem⟩, hpair⟩
      · intro hex
        obtain ⟨pair, hmem, heq, hvalue⟩ := hex
        obtain ⟨b, -, hmem⟩ := mem_flatMap.1 hmem
        have hb : b = T.bucketIdx key := by
          rw [hT.bucketIdx_eq _ _ heq, h.bucketIdx b pair hmem]
        exact ⟨pair, hb ▸ hmem, heq, hvalue⟩
  chunks := by
    refine ⟨chains, free, fun b hb => (h.holds.bucket b hb).linked, h.holds.freeList, ?_, ?_⟩
    · refine nodup_append.2 ⟨?_, (nodup_append.1 (h.holds.nodup 0)).2.1, ?_⟩
      · refine pairwise_flatMap.2 ⟨fun b _ => (nodup_append.1 (h.holds.nodup b)).1, ?_⟩
        refine pairwise_lt_range.imp fun hlt x hx y hy heq => ?_
        exact h.holds.disjoint _ _ (Nat.ne_of_lt hlt) hx (heq ▸ hy)
      · intro c hc c' hc' heq
        obtain ⟨b, -, hmem⟩ := mem_flatMap.1 hc
        exact (nodup_append.1 (h.holds.nodup b)).2.2 c hmem c' hc' heq
    · intro b hb
      refine ⟨?_, ?_⟩
      · intro hused
        rw [(h.holds.bucket b hb).size_eq]
        refine (h.fits b hb).len_eq hT.nPairsPerChunk_pos ?_
        by_contra hlen
        have hnil : chains b = [] := length_eq_zero_iff.1 (by omega)
        exact (h.nil_iff b hb).1 hnil hused
      · intro hused
        exact (h.nil_iff b hb).2 hused

theorem equals_false_symm (hT : T.Lawful) {key key' : K} (h : T.equals key key' = false) :
    T.equals key' key = false := by
  by_contra hne
  rw [hT.symm _ _ (eq_true_of_ne_false hne)] at h
  exact Bool.noConfusion h

theorem removeAt_perm {pairs : List (K × V)} {p : ℕ} {pair : K × V} (hp : pairs[p]? = some pair) :
    pairs.Perm (pair :: removeAt pairs p) := by
  rw [removeAt_eq_refill]
  exact refill_perm hp

theorem Inv.eq_none (h : Inv T t m used chains free pairs) {key : K}
    (hall : ∀ pair ∈ pairs (T.bucketIdx key), T.equals key pair.1 = false) : m key = none := by
  cases hm : m key with
  | none => rfl
  | some value =>
    obtain ⟨pair, hmem, heq, -⟩ := (h.maps key value).1 hm
    rw [hall pair hmem] at heq
    exact Bool.noConfusion heq

theorem forall_update {α : Type} {P : ℕ → α → Prop} {f : ℕ → α} {b : ℕ} {a : α} (hb : P b a)
    (hother : ∀ b', P b' (f b')) (b' : ℕ) : P b' (update f b a b') := by
  by_cases heq : b' = b
  · subst heq
    rw [update_self]
    exact hb
  · rw [update_of_ne heq]
    exact hother b'

theorem fits_update (h : Inv T t m used chains free pairs) {b : ℕ} {chain' : List ℕ}
    {pairs' : List (K × V)} (hfits : Fits T.nPairsPerChunk pairs'.length chain'.length) :
    ∀ b' < T.hashTableSize, Fits T.nPairsPerChunk (update pairs b pairs' b').length
      (update chains b chain' b').length := by
  intro b' hb'
  by_cases heq : b' = b
  · subst heq
    simpa using hfits
  · rw [update_of_ne heq, update_of_ne heq]
    exact h.fits b' hb'

theorem Inv.insert (hT : T.Lawful) (h : Inv T t m used chains free pairs) {key stored : K} {value : V}
    (hstored : T.equals key stored = true)
    (hall : ∀ pair ∈ pairs (T.bucketIdx key), T.equals key pair.1 = false) {chain' free' : List ℕ}
    (hholds : Holds T t' (update chains (T.bucketIdx key) chain') free'
      (update pairs (T.bucketIdx key) (pairs (T.bucketIdx key) ++ [(stored, value)])))
    (hfits : Fits T.nPairsPerChunk ((pairs (T.bucketIdx key)).length + 1) chain'.length) :
    Inv T t' (assign T m key (some value)) (fun b => used b ∨ T.bucketIdx key = b)
      (update chains (T.bucketIdx key) chain') free'
      (update pairs (T.bucketIdx key) (pairs (T.bucketIdx key) ++ [(stored, value)])) where
  holds := hholds
  fits := fits_update h (by simpa using hfits)
  nil_iff := by
    intro b hb
    by_cases heq : b = T.bucketIdx key
    · subst heq
      have hroom := hfits.room
      rw [update_self]
      constructor
      · intro hnil
        rw [hnil] at hroom
        simp at hroom
      · intro hnot
        exact absurd (Or.inr rfl) hnot
    · rw [update_of_ne heq, h.nil_iff b hb]
      exact not_congr ⟨Or.inl, fun hor => hor.resolve_right fun hkey => heq hkey.symm⟩
  bucketIdx := by
    refine forall_update (P := fun b (l : List (K × V)) => ∀ pair ∈ l, T.bucketIdx pair.1 = b) ?_ h.bucketIdx
    intro pair hpair
    cases mem_append.1 hpair with
    | inl hold => exact h.bucketIdx _ pair hold
    | inr hnew =>
      rw [mem_singleton.1 hnew]
      exact (hT.bucketIdx_eq _ _ hstored).symm
  distinct := by
    refine forall_update
      (P := fun _ (l : List (K × V)) => l.Pairwise fun x y => T.equals x.1 y.1 = false) ?_ h.distinct
    refine pairwise_append.2 ⟨h.distinct _, pairwise_singleton _ _, ?_⟩
    intro x hx y hy
    rw [mem_singleton.1 hy]
    by_contra hne
    have heq := hT.trans _ _ _ hstored (hT.symm _ _ (eq_true_of_ne_false hne))
    rw [hall x hx] at heq
    exact Bool.noConfusion heq
  maps := by
    intro key' value'
    unfold assign
    by_cases hkey : T.equals key key' = true
    · rw [if_pos hkey, ← hT.bucketIdx_eq _ _ hkey, update_self]
      constructor
      · intro hvalue
        exact ⟨(stored, value), by simp, hT.trans _ _ _ (hT.symm _ _ hkey) hstored, Option.some.inj hvalue⟩
      · intro hex
        obtain ⟨pair, hmem, heq, hvalue⟩ := hex
        cases mem_append.1 hmem with
        | inl hold =>
          have hfound := hT.trans _ _ _ hkey heq
          rw [hall pair hold] at hfound
          exact Bool.noConfusion hfound
        | inr hnew =>
          rw [← hvalue, mem_singleton.1 hnew]
    · rw [if_neg hkey, h.maps]
      by_cases hbucket : T.bucketIdx key' = T.bucketIdx key
      · rw [hbucket, update_self]
        constructor
        · intro hex
          obtain ⟨pair, hmem, hpair⟩ := hex
          exact ⟨pair, mem_append_left _ hmem, hpair⟩
        · intro hex
          obtain ⟨pair, hmem, heq, hvalue⟩ := hex
          cases mem_append.1 hmem with
          | inl hold => exact ⟨pair, hold, heq, hvalue⟩
          | inr hnew =>
            rw [mem_singleton.1 hnew] at heq
            exact absurd (hT.trans _ _ _ hstored (hT.symm _ _ heq)) hkey
      · rw [update_of_ne hbucket]

theorem Inv.remove (hT : T.Lawful) (h : Inv T t m used chains free pairs) {key : K} {p : ℕ}
    {pair : K × V} (hp : (pairs (T.bucketIdx key))[p]? = some pair)
    (heq : T.equals key pair.1 = true) {chain' free' : List ℕ}
    (hholds : Holds T t' (update chains (T.bucketIdx key) chain') free'
      (update pairs (T.bucketIdx key) (removeAt (pairs (T.bucketIdx key)) p)))
    (hfits : Fits T.nPairsPerChunk ((pairs (T.bucketIdx key)).length - 1) chain'.length)
    (hlen : 1 ≤ chain'.length) :
    Inv T t' (assign T m key none) used (update chains (T.bucketIdx key) chain') free'
      (update pairs (T.bucketIdx key) (removeAt (pairs (T.bucketIdx key)) p)) := by
  have hperm := removeAt_perm hp
  have hdistinct := hperm.pairwise (h.distinct _) fun hxy => equals_false_symm hT hxy
  obtain ⟨hrest, hdistinct⟩ := pairwise_cons.1 hdistinct
  constructor
  · exact hholds
  · refine fits_update h ?_
    have hlength := hperm.length_eq
    rw [length_cons] at hlength
    rw [hlength, Nat.add_sub_cancel] at hfits
    exact hfits
  · intro b hb
    by_cases hbucket : b = T.bucketIdx key
    · subst hbucket
      rw [update_self, ← h.nil_iff _ hb]
      have hpos := (List.getElem?_eq_some_iff.1 hp).1
      have hroom := (h.fits _ hb).room
      constructor
      · intro hnil
        rw [hnil] at hlen
        simp at hlen
      · intro hnil
        rw [hnil] at hroom
        simp at hroom
        simp [hroom] at hpos
    · rw [update_of_ne hbucket, h.nil_iff b hb]
  · refine forall_update (P := fun b (l : List (K × V)) => ∀ pair ∈ l, T.bucketIdx pair.1 = b) ?_ h.bucketIdx
    intro pair' hpair'
    exact h.bucketIdx _ pair' (hperm.mem_iff.2 (mem_cons_of_mem _ hpair'))
  · exact forall_update
      (P := fun _ (l : List (K × V)) => l.Pairwise fun x y => T.equals x.1 y.1 = false) hdistinct
      h.distinct
  · intro key' value'
    unfold assign
    by_cases hkey : T.equals key key' = true
    · rw [if_pos hkey, ← hT.bucketIdx_eq _ _ hkey, update_self]
      constructor
      · intro hvalue
        cases hvalue
      · intro hex
        obtain ⟨pair', hmem, heq', -⟩ := hex
        have hsame := hT.trans _ _ _ (hT.symm _ _ heq) (hT.trans _ _ _ hkey heq')
        rw [hrest pair' hmem] at hsame
        exact Bool.noConfusion hsame
    · rw [if_neg hkey, h.maps]
      by_cases hbucket : T.bucketIdx key' = T.bucketIdx key
      · rw [hbucket, update_self]
        constructor
        · intro hex
          obtain ⟨pair', hmem, heq', hvalue⟩ := hex
          cases mem_cons.1 (hperm.mem_iff.1 hmem) with
          | inl hsame =>
            subst hsame
            exact absurd (hT.trans _ _ _ heq (hT.symm _ _ heq')) hkey
          | inr hmem' => exact ⟨pair', hmem', heq', hvalue⟩
        · intro hex
          obtain ⟨pair', hmem, hpair'⟩ := hex
          exact ⟨pair', hperm.mem_iff.2 (mem_cons_of_mem _ hmem), hpair'⟩
      · rw [update_of_ne hbucket]

theorem Inv.congr (h : Inv T t m used chains free pairs) {used' : ℕ → Prop}
    (heq : ∀ b, used' b ↔ used b) : Inv T t m used' chains free pairs := by
  have hused : used' = used := funext fun b => propext (heq b)
  exact hused ▸ h

theorem assign_none_of_eq_none (hT : T.Lawful) (h : Inv T t m used chains free pairs) {key : K}
    (hall : ∀ pair ∈ pairs (T.bucketIdx key), T.equals key pair.1 = false) : assign T m key none = m := by
  funext key'
  unfold assign
  by_cases hkey : T.equals key key' = true
  · rw [if_pos hkey, h.eq_none]
    intro pair hpair
    rw [← hT.bucketIdx_eq _ _ hkey] at hpair
    by_contra hne
    have hsame := hT.trans _ _ _ hkey (eq_true_of_ne_false hne)
    rw [hall pair hpair] at hsame
    exact Bool.noConfusion hsame
  · rw [if_neg hkey]

end Step

def Stores (T : Template K) (t : Table K V) (m : K → Option V) (used : ℕ → Prop) : Prop :=
  ∃ chains free pairs, Inv T t m used chains free pairs

theorem removal_stores (hT : T.Lawful) {used : ℕ → Prop} (h : Stores T t m used) (key : K) :
    ∃ t', t.getAndRemoveImpl T key = some (t', m key) ∧ Stores T t' (assign T m key none) used := by
  obtain ⟨chains, free, pairs, hinv⟩ := h
  cases getAndRemoveImpl_spec hT hinv.holds key (hinv.fits _ (hT.bucketIdx_lt key)) with
  | inl hfound =>
    obtain ⟨p, pair, hp, heq, t', chain', free', hcall, hholds, hfits, hlen⟩ := hfound
    have hm : m key = some pair.2 :=
      (hinv.maps key pair.2).2 ⟨pair, mem_of_getElem? hp, heq, rfl⟩
    exact ⟨t', hm ▸ hcall, _, _, _, hinv.remove hT hp heq hholds hfits hlen⟩
  | inr hnone =>
    obtain ⟨hall, hcall⟩ := hnone
    refine ⟨t, (hinv.eq_none hall).symm ▸ hcall, ?_⟩
    rw [assign_none_of_eq_none hT hinv hall]
    exact ⟨chains, free, pairs, hinv⟩

theorem call_stores (hT : T.Lawful) {used : ℕ → Prop} (h : Stores T t m used) {op : Op K V}
    (hlegal : op.Legal T) : ∃ t', t.call T op = some (t', (mapCall T m op).2) ∧
      Stores T t' (mapCall T m op).1 fun b => used b ∨ usedBy T op (mapCall T m op).2 b := by
  have hunused : (∀ b, ¬ usedBy T op (mapCall T m op).2 b) →
      ∀ (t' : Table K V) (m' : K → Option V), Stores T t' m' used →
      Stores T t' m' fun b => used b ∨ usedBy T op (mapCall T m op).2 b := by
    intro hnot t' m' hstores
    obtain ⟨chains, free, pairs, hinv⟩ := hstores
    exact ⟨chains, free, pairs, hinv.congr fun b => or_iff_left (hnot b)⟩
  cases op with
  | get key =>
    obtain ⟨chains, free, pairs, hinv⟩ := h
    refine ⟨t, ?_, hunused (by simp [usedBy]) t m ⟨chains, free, pairs, hinv⟩⟩
    cases get_spec hT hinv.holds key with
    | inl hfound =>
      obtain ⟨pair, hmem, heq, hget⟩ := hfound
      have hm : m key = some pair.2 := (hinv.maps key pair.2).2 ⟨pair, hmem, heq, rfl⟩
      simp [Table.call, mapCall, hget, hm]
    | inr hnone =>
      obtain ⟨hall, hget⟩ := hnone
      simp [Table.call, mapCall, hget, hinv.eq_none hall]
  | getAndInsert key stored ctorValue =>
    obtain ⟨chains, free, pairs, hinv⟩ := h
    cases getAndInsert_spec hT hinv.holds ctorValue (hinv.fits _ (hT.bucketIdx_lt key)) hlegal with
    | inl hfound =>
      obtain ⟨pair, hmem, heq, hcall⟩ := hfound
      have hm : m key = some pair.2 := (hinv.maps key pair.2).2 ⟨pair, hmem, heq, rfl⟩
      have hmap : mapCall T m (.getAndInsert key stored ctorValue) = (m, .getAndInsert pair.2 false) := by
        simp [mapCall, hm]
      rw [hmap]
      refine ⟨t, by simp [Table.call, hcall], ?_⟩
      rw [hmap] at hunused
      exact hunused (by simp [usedBy]) t m ⟨chains, free, pairs, hinv⟩
    | inr hnone =>
      obtain ⟨hall, t', chain', free', hcall, hholds, hfits⟩ := hnone
      have hmap : mapCall T m (.getAndInsert key stored ctorValue) =
          (assign T m key (some ctorValue), .getAndInsert ctorValue true) := by
        simp [mapCall, hinv.eq_none hall]
      rw [hmap]
      refine ⟨t', by simp [Table.call, hcall], _, _, _,
        (hinv.insert hT hlegal hall hholds hfits).congr fun b => or_congr_right ?_⟩
      simp [usedBy]
  | remove key =>
    obtain ⟨t', hcall, hstores⟩ := removal_stores hT h key
    refine ⟨t', ?_, hunused (by simp [usedBy]) _ _ hstores⟩
    simp [Table.call, Table.remove, mapCall, hcall]
  | getAndRemove key =>
    obtain ⟨t', hcall, hstores⟩ := removal_stores hT h key
    refine ⟨t', ?_, hunused (by simp [usedBy]) _ _ hstores⟩
    simp [Table.call, Table.getAndRemove, mapCall, hcall]

theorem run_stores (hT : T.Lawful) {used : ℕ → Prop} (h : Stores T t m used) {ops : List (Op K V)}
    (hlegal : ∀ op ∈ ops, op.Legal T) : ∃ t', t.run T ops = some (t', (mapRun T m ops).2) ∧
      Stores T t' (mapRun T m ops).1 fun b => used b ∨ Used T (mapRun T m ops).2 b := by
  induction ops generalizing t m used with
  | nil =>
    obtain ⟨chains, free, pairs, hinv⟩ := h
    refine ⟨t, rfl, chains, free, pairs, hinv.congr fun b => or_iff_left ?_⟩
    simp [Used, mapRun]
  | cons op ops ih =>
    obtain ⟨t', hcall, hstores⟩ := call_stores hT h (hlegal op mem_cons_self)
    obtain ⟨t'', hrun, chains, free, pairs, hinv⟩ :=
      ih hstores fun op' hop => hlegal op' (mem_cons_of_mem _ hop)
    refine ⟨t'', by simp [Table.run, hcall, hrun, mapRun], chains, free, pairs, hinv.congr fun b => ?_⟩
    simp [Used, mapRun, or_assoc]

/-- Running the same calls on the table and on the map gives the same results and a table that
represents the map. -/
theorem run_represents (hT : T.Lawful) {ops : List (Op K V)} (hlegal : ∀ op ∈ ops, op.Legal T) :
    ∃ t, Table.init.run T ops = some (t, (mapRun T (fun _ => none) ops).2) ∧
      Represents T t (mapRun T (fun _ => none) ops).1 (mapRun T (fun _ => none) ops).2 := by
  obtain ⟨t, hrun, chains, free, pairs, hinv⟩ :=
    run_stores hT ⟨_, _, _, init_inv T⟩ hlegal
  exact ⟨t, hrun, (hinv.congr fun b => (or_iff_right id).symm).represents hT⟩

def remainders (nPairsPerChunk hashTableSize : ℕ) : Template ℕ where
  nPairsPerChunk := nPairsPerChunk
  hashTableSize := hashTableSize
  bucketIdx := fun key => key % hashTableSize
  equals := fun key key' => decide (key = key')

theorem remainders_lawful {n size : ℕ} (hn : 1 ≤ n) (hsize : 1 ≤ size) : (remainders n size).Lawful where
  nPairsPerChunk_pos := hn
  bucketIdx_lt := fun key => Nat.mod_lt key hsize
  refl := by simp [remainders]
  symm := by
    intro key key' h
    simpa [remainders, eq_comm] using h
  trans := by
    intro key key' key'' h h'
    simp only [remainders, decide_eq_true_eq] at h h' ⊢
    exact h.trans h'
  bucketIdx_eq := by
    intro key key' h
    simp only [remainders, decide_eq_true_eq] at h
    rw [h]

def releaseOps : List (Op ℕ ℕ) :=
  [.getAndInsert 5 5 50, .getAndInsert 6 6 60, .getAndInsert 7 7 70, .remove 5, .get 7]

theorem run_represents_release : ∃ (t : Table ℕ ℕ) (log : List (Op ℕ ℕ × Result ℕ)),
    Table.init.run (remainders 2 1) releaseOps = some (t, log) ∧
      log.map Prod.snd = [.getAndInsert 50 true, .getAndInsert 60 true, .getAndInsert 70 true,
        .remove true, .get (some 70)] ∧
      Represents (remainders 2 1) t (mapRun (remainders 2 1) (fun _ => none) releaseOps).1 log := by
  obtain ⟨t, hrun, hrepresents⟩ := run_represents
    (show (remainders 2 1).Lawful from remainders_lawful (by decide) (by decide))
    (show ∀ op ∈ releaseOps, op.Legal (remainders 2 1) by simp [releaseOps, Op.Legal, remainders])
  exact ⟨t, _, hrun, rfl, hrepresents⟩

end ScoreP.FastHashtab

import Mathlib.Data.List.Induction
import ScoreP.Foundations.Buckets
import ScoreP.Hashtab.Table

/-!
# What `SCOREP_Hashtab` stores

The abstract table is the list of stored entries, most recently inserted first: an insertion
prepends, a removal drops the first entry whose key compares equal, a search returns it. The bucket
array of the code is the `layout` of that list: bucket `i` holds, in the same order, the entries
whose hash value is `i` modulo `tabsize`. Every operation keeps `Lays`.

`SCOREP_Hashtab_Remove` unlinks the item and leaves the member `size` as it is. The counter
therefore exceeds the number of stored entries from the first removal on that finds its key, and
the size, the emptiness test and the traversal answer for the stored entries exactly as long as no
removal has found its key (`meets_iff_no_removal`). Searches and removals are right throughout
(`find_of_lays`, `lays_of_legal`).
-/

namespace ScoreP.Hashtab

open List

variable {K V : Type}

/-! ## Histories and the abstract table -/

/-- The calls of a history. A search passes its hash value on through `hashValPtr`. -/
inductive Op (K V : Type)
  | insert (key : K) (value : V) (hashValPtr malloc : Option ℕ)
  | find (key : K)
  | remove (key : K) (hashValPtr : Option ℕ)

def Table.apply (t : Table K V) : Op K V → Table K V
  | .insert key value hashValPtr malloc => (t.insert key value hashValPtr malloc).1
  | .find _ => t
  | .remove key hashValPtr => t.remove key hashValPtr

/-- Does the entry belong to `key`? -/
def EntryPtr.isFor (kcmp : K → K → ℤ) (key : K) (e : EntryPtr K V) : Bool :=
  0 == kcmp key e.entry.key

def storedApply (kcmp : K → K → ℤ) (stored : List (EntryPtr K V)) : Op K V → List (EntryPtr K V)
  | .insert key value _ (some addr) => ⟨addr, key, value⟩ :: stored
  | .insert _ _ _ none => stored
  | .find _ => stored
  | .remove key _ => stored.eraseP (EntryPtr.isFor kcmp key)

def storedAfter (kcmp : K → K → ℤ) (ops : List (Op K V)) : List (EntryPtr K V) :=
  ops.foldl (storedApply kcmp) []

/-- What the interface asks of a call: a hash value that is passed in is the one of the key, and
`malloc` returns memory that is not in use. -/
def Op.Legal (hash : K → ℕ) (stored : List (EntryPtr K V)) : Op K V → Prop
  | .insert key _ hashValPtr malloc =>
    (∀ h ∈ hashValPtr, h = hash key) ∧ ∀ addr ∈ malloc, addr ∉ stored.map EntryPtr.addr
  | .find _ => True
  | .remove key hashValPtr => ∀ h ∈ hashValPtr, h = hash key

def Legal (hash : K → ℕ) (kcmp : K → K → ℤ) : List (EntryPtr K V) → List (Op K V) → Prop
  | _, [] => True
  | stored, op :: ops => op.Legal hash stored ∧ Legal hash kcmp (storedApply kcmp stored op) ops

/-- The table answers for exactly the entries `stored`. -/
structure Meets (t : Table K V) (stored : List (EntryPtr K V)) : Prop where
  find_eq : ∀ key, t.find key = (stored.find? (EntryPtr.isFor t.kcmp key), t.hash key)
  size_eq : t.size = stored.length
  empty_iff : t.empty = true ↔ stored = []
  foreach_eq : ∃ visited, t.foreach (stored.length + 1) = .ok visited ∧ visited.Perm stored ∧
    (visited.map EntryPtr.addr).Nodup

/-! ## The layout of the bucket array -/

def listItem (hash : K → ℕ) (e : EntryPtr K V) : ListItem K V :=
  { toEntryPtr := e, hashValue := hash e.entry.key }

/-- Is the entry filed in bucket `i`? -/
def inBucket (hash : K → ℕ) (tabsize i : ℕ) (e : EntryPtr K V) : Bool :=
  decide (hash e.entry.key % tabsize = i)

def layout (hash : K → ℕ) (tabsize : ℕ) (stored : List (EntryPtr K V)) : List (List (ListItem K V)) :=
  (List.range tabsize).map fun i =>
    (stored.filter (inBucket hash tabsize i)).map (listItem hash)

/-- The bucket array is the layout of `stored`. -/
structure Lays (t : Table K V) (stored : List (EntryPtr K V)) : Prop where
  pos : 0 < t.tabsize
  table_eq : t.table = layout t.hash t.tabsize stored
  nodup : (stored.map EntryPtr.addr).Nodup

theorem createSize_lays {tabsize : ℕ} (h : 0 < tabsize) (hash : K → ℕ) (kcmp : K → K → ℤ) :
    Lays (createSize tabsize hash kcmp : Table K V) [] where
  pos := h
  table_eq := by simp [createSize, layout, map_const']
  nodup := by simp

theorem modify_map_range {β : Type} (n i : ℕ) (f : ℕ → β) (g : β → β) :
    ((List.range n).map f).modify i g = (List.range n).map fun j => if i = j then g (f j) else f j := by
  apply ext_getElem?
  intro j
  rw [getElem?_modify, getElem?_map, getElem?_map]
  by_cases hj : j < n
  · simp [hj]
  · simp [hj]

variable {t : Table K V}

theorem hashval_eq {key : K} {hashValPtr : Option ℕ} (h : ∀ v ∈ hashValPtr, v = t.hash key) :
    t.hashval key hashValPtr = t.hash key := by
  cases hashValPtr with
  | none => rfl
  | some v => exact h v rfl

variable {stored : List (EntryPtr K V)}

theorem insert_lays (h : Lays t stored) {key : K} (value : V) {hashValPtr malloc : Option ℕ}
    (hlegal : (Op.insert key value hashValPtr malloc).Legal t.hash stored) :
    Lays (t.insert key value hashValPtr malloc).1
      (storedApply t.kcmp stored (.insert key value hashValPtr malloc)) := by
  cases malloc with
  | none => exact h
  | some addr =>
    refine ⟨h.pos, ?_, ?_⟩
    · simp only [Table.insert, storedApply, hashval_eq hlegal.1, h.table_eq, layout, modify_map_range]
      apply map_congr_left
      intro j _
      by_cases hj : t.hash key % t.tabsize = j
      · simp [hj, inBucket, listItem]
      · simp [hj, inBucket]
    · simp only [storedApply, map_cons, nodup_cons]
      exact ⟨hlegal.2 addr rfl, h.nodup⟩

section Consistent

variable {t : Table K V} {stored : List (EntryPtr K V)}

theorem unlink_eq_eraseP (hashval : ℕ) (key : K) (items : List (ListItem K V)) :
    t.unlink hashval key items = items.eraseP (t.isMatch hashval key) := by
  induction items with
  | nil => rfl
  | cons item next ih =>
    cases hm : t.isMatch hashval key item
    · simp [Table.unlink, hm, ih]
    · simp [Table.unlink, hm]

theorem isMatch_listItem (hkcmp : ∀ k k', t.kcmp k k' = 0 → t.hash k = t.hash k') (key : K) :
    t.isMatch (t.hash key) key ∘ listItem (V := V) t.hash = EntryPtr.isFor t.kcmp key := by
  funext e
  by_cases hz : t.kcmp key e.entry.key = 0
  · simp [Table.isMatch, listItem, EntryPtr.isFor, hz, hkcmp _ _ hz]
  · simp [Table.isMatch, listItem, EntryPtr.isFor, Ne.symm hz]

theorem inBucket_of_isFor (hkcmp : ∀ k k', t.kcmp k k' = 0 → t.hash k = t.hash k') (key : K)
    (e : EntryPtr K V) (he : EntryPtr.isFor t.kcmp key e = true) :
    inBucket t.hash t.tabsize (t.hash key % t.tabsize) e = true := by
  have hz : t.kcmp key e.entry.key = 0 := by
    simp only [EntryPtr.isFor, beq_iff_eq] at he
    exact he.symm
  simp [inBucket, hkcmp _ _ hz]

theorem not_inBucket_of_isFor (hkcmp : ∀ k k', t.kcmp k k' = 0 → t.hash k = t.hash k') {key : K}
    {i : ℕ} (hi : t.hash key % t.tabsize ≠ i) (e : EntryPtr K V)
    (he : EntryPtr.isFor t.kcmp key e = true) : inBucket t.hash t.tabsize i e = false := by
  have hb := inBucket_of_isFor hkcmp key e he
  simp only [inBucket, decide_eq_true_eq] at hb
  simp [inBucket, hb, hi]

theorem find_of_lays (h : Lays t stored) (hkcmp : ∀ k k', t.kcmp k k' = 0 → t.hash k = t.hash k') (key : K) :
    t.find key = (stored.find? (EntryPtr.isFor t.kcmp key), t.hash key) := by
  have hi : t.hash key % t.tabsize < t.tabsize := Nat.mod_lt _ h.pos
  have hbucket : t.table.getD (t.hash key % t.tabsize) [] =
      (stored.filter (inBucket t.hash t.tabsize (t.hash key % t.tabsize))).map (listItem t.hash) := by
    rw [h.table_eq, layout, getD_eq_getElem?_getD, getElem?_map, getElem?_range hi]
    rfl
  have hptr : ListItem.toEntryPtr ∘ listItem (V := V) t.hash = id := rfl
  simp only [Table.find]
  rw [hbucket, find?_map, isMatch_listItem hkcmp, Option.map_map, hptr, Option.map_id_fun,
    id_eq, Foundations.Buckets.find?_filter_of_imp (inBucket_of_isFor hkcmp key)]

theorem remove_lays (h : Lays t stored)
    (hkcmp : ∀ k k', t.kcmp k k' = 0 → t.hash k = t.hash k') {key : K} {hashValPtr : Option ℕ}
    (hlegal : ∀ v ∈ hashValPtr, v = t.hash key) :
    Lays (t.remove key hashValPtr) (stored.eraseP (EntryPtr.isFor t.kcmp key)) := by
  refine ⟨h.pos, ?_, ?_⟩
  · simp only [Table.remove, hashval_eq hlegal, h.table_eq, layout, modify_map_range]
    apply map_congr_left
    intro i _
    by_cases hi : t.hash key % t.tabsize = i
    · subst hi
      rw [if_pos rfl, unlink_eq_eraseP, eraseP_map, isMatch_listItem hkcmp,
        Foundations.Buckets.eraseP_filter_of_imp (inBucket_of_isFor hkcmp key)]
    · rw [if_neg hi, Foundations.Buckets.filter_eraseP_of_not (not_inBucket_of_isFor hkcmp hi)]
  · exact h.nodup.sublist ((eraseP_sublist).map _)

end Consistent

/-! ## Traversal -/

theorem layout_flatten_perm (hash : K → ℕ) {tabsize : ℕ} (h : 0 < tabsize) (stored : List (EntryPtr K V)) :
    ((layout hash tabsize stored).flatten.map ListItem.toEntryPtr).Perm stored := by
  have hptr : ListItem.toEntryPtr ∘ listItem (V := V) hash = id := rfl
  have hflat : (layout hash tabsize stored).flatten.map ListItem.toEntryPtr =
      (List.range tabsize).flatMap fun i =>
        stored.filter fun e => decide (hash e.entry.key % tabsize = i) := by
    rw [map_flatten, layout, map_map, flatMap_def]
    congr 1
    apply map_congr_left
    intro i _
    simp only [Function.comp_apply, map_map, hptr, map_id]
    rfl
  rw [hflat]
  exact Foundations.Buckets.flatMap_filter_perm fun e _ => Nat.mod_lt _ h

namespace Table

/-- The entries an iterator at `it` has not passed yet, the current one first. -/
def remaining (t : Table K V) (it : Iterator K V) : List (ListItem K V) :=
  it.item ++ (t.table.drop (it.index + 1)).flatten

theorem skipEmpty_eq (tabsize : ℕ) :
    ∀ (buckets : List (List (ListItem K V))) (index : ℕ), index + buckets.length = tabsize →
      buckets.flatten ≠ [] → ∃ n, skipEmpty tabsize buckets index = .ok (index + n) ∧ n < buckets.length ∧
        (buckets.getD n []) ≠ [] ∧ buckets.flatten = (buckets.drop n).flatten
  | [], _, _, hne => by simp at hne
  | [] :: rest, index, hlen, hne => by
    rw [length_cons] at hlen
    obtain ⟨n, hn, hlt, hget, hdrop⟩ :=
      skipEmpty_eq tabsize rest (index + 1) (by omega) (by simpa using hne)
    refine ⟨n + 1, ?_, by simpa using hlt, by simpa using hget, by simpa using hdrop⟩
    have hindex : index < tabsize := by omega
    rw [skipEmpty, if_pos hindex, hn]
    congr 1
    omega
  | (item :: next) :: rest, index, _, _ => ⟨0, by simp [skipEmpty], by simp, by simp, rfl⟩

theorem nextUsed_eq (tabsize : ℕ) :
    ∀ (buckets : List (List (ListItem K V))) (index : ℕ), index + buckets.length = tabsize →
      ∃ n, n ≤ buckets.length ∧ nextUsed tabsize buckets index = .ok (index + n, buckets.getD n []) ∧
        (buckets.getD n [] = [] → buckets.flatten = []) ∧
        buckets.flatten = buckets.getD n [] ++ (buckets.drop (n + 1)).flatten
  | [], index, hlen => by
    have hindex : index = tabsize := by simpa using hlen
    exact ⟨0, by simp, by simp [nextUsed, hindex], by simp, by simp⟩
  | [] :: rest, index, hlen => by
    rw [length_cons] at hlen
    obtain ⟨n, hle, hn, hnil, hflat⟩ := nextUsed_eq tabsize rest (index + 1) (by omega)
    have hindex : index ≠ tabsize := by omega
    refine ⟨n + 1, by simpa using hle, ?_, by simpa using hnil, by simpa using hflat⟩
    rw [nextUsed, if_neg hindex]
    simp only [hn, getD_cons_succ]
    congr 2
    omega
  | (item :: next) :: rest, index, hlen => by
    rw [length_cons] at hlen
    have hindex : index ≠ tabsize := by omega
    exact ⟨0, by simp, by simp [nextUsed, hindex], by simp, by simp⟩

theorem iteratorNext_eq (hlen : t.table.length = t.tabsize) {it : Iterator K V}
    (hindex : it.index < t.tabsize) {item : ListItem K V} {next : List (ListItem K V)}
    (hitem : it.item = item :: next) :
    ∃ it', t.iteratorNext it = .ok (it'.item.head?.map ListItem.toEntryPtr, it') ∧
      t.remaining it = item :: t.remaining it' ∧
      (it'.item = [] → t.remaining it' = []) ∧ (it'.item ≠ [] → it'.index < t.tabsize) := by
  cases next with
  | cons item' next =>
    refine ⟨{ it with item := item' :: next }, ?_, ?_, by simp, fun _ => hindex⟩
    · simp [iteratorNext, hitem]
    · simp [remaining, hitem]
  | nil =>
    have hdrop : it.index + 1 + (t.table.drop (it.index + 1)).length = t.tabsize := by
      rw [length_drop]
      omega
    obtain ⟨n, hle, hn, hnil, hflat⟩ := nextUsed_eq t.tabsize _ _ hdrop
    refine ⟨⟨it.index + 1 + n, (t.table.drop (it.index + 1)).getD n []⟩, ?_, ?_, ?_, ?_⟩
    · simp [iteratorNext, hitem, hn, bind, Except.bind, pure, Except.pure]
    · simp only [remaining, hitem, cons_append, nil_append]
      rw [hflat, drop_drop]
      rfl
    · intro hempty
      have hall := hnil hempty
      rw [hflat, drop_drop] at hall
      exact hall
    · intro hne
      by_contra hge
      have hout : (t.table.drop (it.index + 1)).length ≤ n := by
        rw [length_drop]
        simp only [Nat.not_lt] at hge
        omega
      exact hne (by simp [getD_eq_getElem?_getD, getElem?_eq_none hout])

theorem foreachFrom_eq (hlen : t.table.length = t.tabsize) (fuel : ℕ) :
    ∀ it : Iterator K V, (it.item ≠ [] → it.index < t.tabsize) →
      (it.item = [] → t.remaining it = []) → (t.remaining it).length ≤ fuel →
      t.foreachFrom fuel (it.item.head?.map ListItem.toEntryPtr, it) =
        .ok ((t.remaining it).map ListItem.toEntryPtr) := by
  induction fuel with
  | zero =>
    intro it _ _ hfuel
    have hrem : t.remaining it = [] := eq_nil_of_length_eq_zero (by omega)
    have hitem : it.item = [] := (append_eq_nil_iff.mp hrem).1
    simp [hitem, hrem, foreachFrom]
  | succ fuel ih =>
    intro it hindex hrem hfuel
    cases hitem : it.item with
    | nil => simp [hrem hitem, foreachFrom]
    | cons item next =>
      obtain ⟨it', hnext, hcons, hnil, hlt⟩ :=
        iteratorNext_eq hlen (hindex (by simp [hitem])) hitem
      have hrest := ih it' hlt hnil (by rw [hcons, length_cons] at hfuel; omega)
      simp only [head?_cons, Option.map_some, foreachFrom, hnext, bind, Except.bind, hrest,
        pure, Except.pure, hcons, map_cons]

theorem bucketAt_eq {index : ℕ} (h : index < t.table.length) :
    t.bucketAt index = .ok (t.table.getD index []) := by
  simp [bucketAt, getD_eq_getElem?_getD, h]

theorem foreach_eq (hlen : t.table.length = t.tabsize) (hsize : t.size ≠ 0)
    (hne : t.table.flatten ≠ []) {fuel : ℕ} (hfuel : t.table.flatten.length ≤ fuel) :
    t.foreach fuel = .ok (t.table.flatten.map ListItem.toEntryPtr) := by
  obtain ⟨n, hskip, hlt, hget, hdrop⟩ := skipEmpty_eq t.tabsize t.table 0 (by omega) hne
  rw [Nat.zero_add] at hskip
  have hrem : t.remaining ⟨n, t.table.getD n []⟩ = t.table.flatten := by
    rw [hdrop, remaining, drop_eq_getElem_cons hlt, flatten_cons,
      getD_eq_getElem?_getD, getElem?_eq_getElem hlt, Option.getD_some]
  have hloop := foreachFrom_eq hlen fuel ⟨n, t.table.getD n []⟩ (fun _ => by simpa [← hlen] using hlt)
    (fun h => absurd h hget) (by rw [hrem]; exact hfuel)
  rw [hrem] at hloop
  simpa [foreach, iteratorFirst, hsize, hskip, bucketAt_eq hlt, bind, Except.bind, pure,
    Except.pure] using hloop

end Table

theorem meets_of_lays (h : Lays t stored) (hkcmp : ∀ k k', t.kcmp k k' = 0 → t.hash k = t.hash k')
    (hsize : t.size = stored.length) : Meets t stored where
  find_eq := find_of_lays h hkcmp
  size_eq := hsize
  empty_iff := by simp [Table.empty, hsize]
  foreach_eq := by
    have hperm := layout_flatten_perm t.hash h.pos stored
    rw [← h.table_eq] at hperm
    have hlen : t.table.length = t.tabsize := by simp [h.table_eq, layout]
    have hcount : t.table.flatten.length = stored.length := by
      rw [← hperm.length_eq, length_map]
    by_cases hnil : stored = []
    · refine ⟨[], ?_, by simp [hnil], by simp⟩
      have hzero : t.size = 0 := by simp [hsize, hnil]
      simp [Table.foreach, Table.iteratorFirst, hzero, Table.foreachFrom, bind, Except.bind]
    · have hpos : 0 < stored.length := length_pos_iff.mpr hnil
      refine ⟨_, Table.foreach_eq hlen (by omega) ?_ (by omega), hperm, ?_⟩
      · exact ne_nil_of_length_pos (by omega)
      · exact (hperm.map EntryPtr.addr).nodup_iff.mpr h.nodup

section Histories

variable (hash : K → ℕ) (kcmp : K → K → ℤ)

/-- The table after a history that starts with an empty table of `tabsize` buckets. -/
def tableAfter (tabsize : ℕ) (ops : List (Op K V)) : Table K V :=
  ops.foldl Table.apply (createSize tabsize hash kcmp)

variable {hash kcmp}

theorem apply_hash (t : Table K V) (op : Op K V) : (t.apply op).hash = t.hash ∧ (t.apply op).kcmp = t.kcmp := by
  cases op with
  | insert key value hashValPtr malloc => cases malloc <;> exact ⟨rfl, rfl⟩
  | find key => exact ⟨rfl, rfl⟩
  | remove key hashValPtr => exact ⟨rfl, rfl⟩

theorem apply_lays (h : Lays t stored) (hkcmp : ∀ k k', t.kcmp k k' = 0 → t.hash k = t.hash k')
    {op : Op K V} (hlegal : op.Legal t.hash stored) : Lays (t.apply op) (storedApply t.kcmp stored op) := by
  cases op with
  | insert key value hashValPtr malloc => exact insert_lays h value hlegal
  | find key => exact h
  | remove key hashValPtr => exact remove_lays h hkcmp hlegal

theorem apply_size (t : Table K V) (stored : List (EntryPtr K V)) (op : Op K V) :
    (t.apply op).size + stored.length = t.size + (storedApply t.kcmp stored op).length +
      match op with
      | .remove key _ => if stored.any (EntryPtr.isFor t.kcmp key) then 1 else 0
      | _ => 0 := by
  cases op with
  | insert key value hashValPtr malloc =>
    cases malloc with
    | none => rfl
    | some addr =>
      simp only [Table.apply, Table.insert, storedApply, length_cons]
      omega
  | find key => rfl
  | remove key hashValPtr =>
    simp only [Table.apply, Table.remove, storedApply, length_eraseP]
    by_cases hany : stored.any (EntryPtr.isFor t.kcmp key)
    · have hpos : 0 < stored.length := by
        obtain ⟨e, he, _⟩ := any_eq_true.mp hany
        exact length_pos_of_mem he
      rw [if_pos hany, if_pos hany]
      omega
    · rw [if_neg hany, if_neg hany, Nat.add_zero]

def removals (kcmp : K → K → ℤ) : List (EntryPtr K V) → List (Op K V) → ℕ
  | _, [] => 0
  | stored, op :: ops =>
    (match op with
      | .remove key _ => if stored.any (EntryPtr.isFor kcmp key) then 1 else 0
      | _ => 0) + removals kcmp (storedApply kcmp stored op) ops

theorem run_lays (hkcmp : ∀ k k', kcmp k k' = 0 → hash k = hash k') (ops : List (Op K V)) :
    ∀ (t : Table K V) (stored : List (EntryPtr K V)), t.hash = hash → t.kcmp = kcmp →
      Lays t stored → Legal hash kcmp stored ops →
      Lays (ops.foldl Table.apply t) (ops.foldl (storedApply kcmp) stored) ∧
        (ops.foldl Table.apply t).hash = hash ∧ (ops.foldl Table.apply t).kcmp = kcmp ∧
        (ops.foldl Table.apply t).size + stored.length =
          t.size + (ops.foldl (storedApply kcmp) stored).length + removals kcmp stored ops := by
  induction ops with
  | nil =>
    intro t stored hhash hk h _
    exact ⟨h, hhash, hk, rfl⟩
  | cons op ops ih =>
    rintro t stored rfl rfl h ⟨hop, hrest⟩
    obtain ⟨hhash, hk⟩ := apply_hash t op
    obtain ⟨hlays, hhash', hk', hsize⟩ :=
      ih (t.apply op) _ hhash hk (apply_lays h hkcmp hop) hrest
    have hstep := apply_size t stored op
    refine ⟨hlays, hhash', hk', ?_⟩
    simp only [foldl_cons, removals]
    omega

theorem legal_append {ops ops' : List (Op K V)} : Legal hash kcmp stored (ops ++ ops') ↔
      Legal hash kcmp stored ops ∧ Legal hash kcmp (ops.foldl (storedApply kcmp) stored) ops' := by
  induction ops generalizing stored with
  | nil => simp [Legal]
  | cons op ops ih => simp [Legal, ih, and_assoc]

theorem removals_append (stored : List (EntryPtr K V)) (ops ops' : List (Op K V)) :
    removals kcmp stored (ops ++ ops') =
      removals kcmp stored ops + removals kcmp (ops.foldl (storedApply kcmp) stored) ops' := by
  induction ops generalizing stored with
  | nil => simp [removals]
  | cons op ops ih => simp [removals, ih, Nat.add_assoc]

theorem lays_of_legal {tabsize : ℕ} (hpos : 0 < tabsize)
    (hkcmp : ∀ k k', kcmp k k' = 0 → hash k = hash k') {ops : List (Op K V)} (hlegal : Legal hash kcmp [] ops) :
    Lays (tableAfter hash kcmp tabsize ops) (storedAfter kcmp ops) ∧
      (tableAfter hash kcmp tabsize ops).hash = hash ∧ (tableAfter hash kcmp tabsize ops).kcmp = kcmp ∧
      (tableAfter hash kcmp tabsize ops).size = (storedAfter kcmp ops).length + removals kcmp [] ops := by
  obtain ⟨hlays, hhash, hk, hsize⟩ := run_lays hkcmp ops (createSize tabsize hash kcmp) []
    rfl rfl (createSize_lays hpos hash kcmp) hlegal
  refine ⟨hlays, hhash, hk, ?_⟩
  simpa [tableAfter, storedAfter, createSize] using hsize

theorem removals_eq_zero_iff {ops : List (Op K V)} : removals kcmp [] ops = 0 ↔
      ∀ pre key hashValPtr, pre ++ [.remove key hashValPtr] <+: ops →
        ∀ e ∈ storedAfter kcmp pre, kcmp key e.entry.key ≠ 0 := by
  constructor
  · rintro hzero pre key hashValPtr ⟨post, rfl⟩ e he hk
    have hany : (storedAfter kcmp pre).any (EntryPtr.isFor kcmp key) = true :=
      any_eq_true.mpr ⟨e, he, by simp [EntryPtr.isFor, hk]⟩
    rw [append_assoc, removals_append, singleton_append] at hzero
    simp only [removals] at hzero
    rw [← storedAfter, if_pos hany] at hzero
    omega
  · intro hnone
    induction ops using List.reverseRecOn with
    | nil => rfl
    | append_singleton pre op ih =>
      have hpre := ih fun pre' key hashValPtr hpre' =>
        hnone pre' key hashValPtr (hpre'.trans (prefix_append _ _))
      rw [removals_append, hpre, Nat.zero_add, ← storedAfter]
      cases op with
      | insert key value hashValPtr malloc => rfl
      | find key => rfl
      | remove key hashValPtr =>
        have hany : ¬ (storedAfter kcmp pre).any (EntryPtr.isFor kcmp key) = true := by
          intro hany
          obtain ⟨e, he, hfor⟩ := any_eq_true.mp hany
          simp only [EntryPtr.isFor, beq_iff_eq] at hfor
          exact hnone pre key hashValPtr prefix_rfl e he hfor.symm
        simp only [removals, if_neg hany]

/-- **The table answers for the stored entries throughout a history exactly when no removal of the
history finds its key.** -/
theorem meets_iff_no_removal {tabsize : ℕ} (hpos : 0 < tabsize)
    (hkcmp : ∀ k k', kcmp k k' = 0 → hash k = hash k') {ops : List (Op K V)} (hlegal : Legal hash kcmp [] ops) :
    (∀ pre, pre <+: ops → Meets (tableAfter hash kcmp tabsize pre) (storedAfter kcmp pre)) ↔
      ∀ pre key hashValPtr, pre ++ [.remove key hashValPtr] <+: ops →
        ∀ e ∈ storedAfter kcmp pre, kcmp key e.entry.key ≠ 0 := by
  rw [← removals_eq_zero_iff]
  constructor
  · intro hmeets
    obtain ⟨_, _, _, hsize⟩ := lays_of_legal hpos hkcmp hlegal
    have := (hmeets ops prefix_rfl).size_eq
    omega
  · rintro hzero pre ⟨post, rfl⟩
    rw [removals_append] at hzero
    obtain ⟨hlays, hhash, hk, hsize⟩ := lays_of_legal hpos hkcmp (legal_append.mp hlegal).1
    exact meets_of_lays hlays (by rw [hhash, hk]; exact hkcmp) (by omega)

end Histories

/-! ## An insertion and the removal of the same key -/

def keyCompare (k k' : ℕ) : ℤ := if k = k' then 0 else 1

/-- A history without removals satisfies the condition of `meets_iff_no_removal`. -/
theorem meets_insert_find : Legal id keyCompare [] [Op.insert 7 'a' none (some 100), .find 7] ∧
      ∀ pre, pre <+: [Op.insert 7 'a' none (some 100), .find 7] →
        Meets (tableAfter id keyCompare 1 pre) (storedAfter keyCompare pre) := by
  have hlegal : Legal id keyCompare [] [Op.insert 7 'a' none (some 100), .find 7] := by
    simp [Legal, Op.Legal]
  have hkcmp : ∀ k k', keyCompare k k' = 0 → id k = id k' := by
    intro k k' h
    simpa [keyCompare] using h
  refine ⟨hlegal, (meets_iff_no_removal (by decide) hkcmp hlegal).mpr ?_⟩
  intro pre key hashValPtr hpre
  have hmem := hpre.subset (mem_append_right pre (mem_singleton.mpr rfl))
  simp at hmem

/-- After the only entry is removed the counter is still 1, the table does not count as empty, and
the traversal reads the bucket array at `tabsize`. -/
theorem not_meets_insert_remove : Legal id keyCompare [] [Op.insert 7 'a' none (some 100), .remove 7 none] ∧
      storedAfter keyCompare [Op.insert 7 'a' none (some 100), .remove 7 none] = [] ∧
      (tableAfter id keyCompare 1 [Op.insert 7 'a' none (some 100), .remove 7 none]).size = 1 ∧
      (tableAfter id keyCompare 1 [Op.insert 7 'a' none (some 100), .remove 7 none]).foreach 1 =
        .error (.tableIndex 1) ∧
      ¬ Meets (tableAfter id keyCompare 1 [Op.insert 7 'a' none (some 100), .remove 7 none])
        (storedAfter keyCompare [Op.insert 7 'a' none (some 100), .remove 7 none]) := by
  refine ⟨by simp [Legal, Op.Legal], by decide, by decide, by rfl, ?_⟩
  intro h
  exact absurd h.size_eq (by decide)

end ScoreP.Hashtab

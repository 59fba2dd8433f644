import ScoreP.Definitions.Partners
import ScoreP.Foundations.Messages

/-!
# The messages of the hierarchical unification

Source: `unify_mpp_hierarchical`, `receive_and_unify_remote_definitions`,
`send_local_unified_definitions_to_parent`, `receive_mappings` and `apply_and_send_mappings` of
`scorep_unify_mpp_ipc.c`. A rank takes what each child sends, sends what it has to its parent, takes the
mappings from there and hands them on. How many messages a part has is only known from what was received.
`spanning_tree`: the ranks calculate one tree, and on it no set of them waits for each other.
-/

namespace ScoreP.Definitions

open Foundations.Messages List

structure Page where
  id : ℕ
  fill : ℕ
  memory : List ℕ

/-- A definition manager with the pages of its page manager. The counters are those of the definition types
with mappings, in their order. -/
structure Manager where
  counters : List ℕ
  pages : List Page

abbrev Mappings := List (Option (List ℕ))

structure RemoteManager where
  rank : ℕ
  counters : List ℕ
  mapping : List (List ℕ)

abbrev RankProcess := Process ℕ (List ℕ)

def receivePages (rank : ℕ) (ids fills : List ℕ) : ℕ → List Page → (List Page → RankProcess) → RankProcess
  | 0, pages, next => next pages
  | number + 1, pages, next =>
    .recv rank fun memory =>
      receivePages rank ids fills number
        (pages ++ [{ id := ids.getD pages.length 0, fill := fills.getD pages.length 0, memory := memory }]) next

def receiveRemoteDefinitions (rank : ℕ) (next : Manager → RankProcess) : RankProcess :=
  .recv rank fun counters =>
  .recv rank fun number =>
  .recv rank fun ids =>
  .recv rank fun fills =>
  receivePages rank ids fills (number.headD 0) [] fun pages => next { counters := counters, pages := pages }

def sendPages (parent : ℕ) : List Page → RankProcess → RankProcess
  | [], next => next
  | page :: pages, next => .send parent page.memory (sendPages parent pages next)

def sendLocalUnifiedDefinitionsToParent (parent : ℕ) (own : Manager) (next : RankProcess) : RankProcess :=
  .send parent own.counters <|
  .send parent [own.pages.length] <|
  .send parent (own.pages.map Page.id) <|
  .send parent (own.pages.map Page.fill) <|
  sendPages parent own.pages next

def receiveMappings (rank : ℕ) : List ℕ → Mappings → (Mappings → RankProcess) → RankProcess
  | [], mappings, next => next mappings
  | counter :: counters, mappings, next =>
    if counter > 0 then
      .recv rank fun mapping => receiveMappings rank counters (mappings ++ [some mapping]) next
    else receiveMappings rank counters (mappings ++ [none]) next

def applyMapping : Option (List ℕ) → List ℕ → List ℕ
  | none, remote => remote
  | some unified, remote => remote.map fun i => unified.getD i 0

/-- The definition types from `type` on. -/
def applyAndSendMappings (rank : ℕ) (unified : Mappings) (remote : List (List ℕ)) :
    List ℕ → ℕ → RankProcess → RankProcess
  | [], _, next => next
  | counter :: counters, type, next =>
    if counter > 0 then
      .send rank (applyMapping (unified.getD type none) (remote.getD type []))
        (applyAndSendMappings rank unified remote counters (type + 1) next)
    else applyAndSendMappings rank unified remote counters (type + 1) next

section Unify

-- `unify own remote`: the unified manager with the definitions of a received one, and the mappings of that
variable (unify : Manager → Manager → Manager × List (List ℕ))

def receiveFromChildren : List ℕ → Manager → List RemoteManager →
    (Manager → List RemoteManager → RankProcess) → RankProcess
  | [], own, remotes, next => next own remotes
  | child :: children, own, remotes, next =>
    receiveRemoteDefinitions child fun remote =>
      receiveFromChildren children (unify own remote).1
        (remotes ++ [{ rank := child, counters := remote.counters, mapping := (unify own remote).2 }]) next

def sendToChildren (unified : Mappings) : List RemoteManager → RankProcess
  | [] => .done
  | remote :: remotes =>
    applyAndSendMappings remote.rank unified remote.mapping remote.counters 0 (sendToChildren unified remotes)

def unifyMppHierarchical (me parent : ℕ) (children : List ℕ) (own : Manager) : RankProcess :=
  receiveFromChildren unify children own [] fun own remotes =>
    if parent ≠ me then
      sendLocalUnifiedDefinitionsToParent parent own <|
        receiveMappings parent own.counters [] fun unified => sendToChildren unified remotes.reverse
    else sendToChildren [] remotes.reverse

def rankProcess (size me : ℕ) (own : Manager) : RankProcess :=
  match commPartners size me with
  | none => .done
  | some partners =>
    unifyMppHierarchical unify me partners.parent
      ((partners.children.take partners.numberOfChildren).filterMap id) own

def processes (size : ℕ) (definitions : ℕ → Manager) (me : ℕ) : RankProcess :=
  if me < size then rankProcess unify size me (definitions me) else .done

end Unify

/-! ## The messages of one part -/

def Manager.messages (own : Manager) : List (List ℕ) :=
  own.counters :: [own.pages.length] :: own.pages.map Page.id :: own.pages.map Page.fill ::
    own.pages.map Page.memory

def mappingMessages (unified : Mappings) (remote : List (List ℕ)) : List ℕ → ℕ → List (List ℕ)
  | [], _ => []
  | counter :: counters, type =>
    if counter > 0 then
      applyMapping (unified.getD type none) (remote.getD type []) ::
        mappingMessages unified remote counters (type + 1)
    else mappingMessages unified remote counters (type + 1)

def receivedMappings (unified : Mappings) (remote : List (List ℕ)) : List ℕ → ℕ → Mappings
  | [], _ => []
  | counter :: counters, type =>
    (if counter > 0 then some (applyMapping (unified.getD type none) (remote.getD type [])) else none) ::
      receivedMappings unified remote counters (type + 1)

section Parts

variable {rest : List (Event ℕ (List ℕ))} {next : RankProcess}

theorem follows_sendPages (parent : ℕ) (pages : List Page) (h : Follows next rest) :
    Follows (sendPages parent pages next) ((pages.map Page.memory).map (.send parent) ++ rest) := by
  induction pages with
  | nil => exact h
  | cons page pages ih => exact .send ih

theorem follows_sendLocal (parent : ℕ) (own : Manager) (h : Follows next rest) :
    Follows (sendLocalUnifiedDefinitionsToParent parent own next) (own.messages.map (.send parent) ++ rest) :=
  .send (.send (.send (.send (follows_sendPages parent own.pages h))))

theorem follows_receivePages (rank : ℕ) (pages received : List Page) {next : List Page → RankProcess}
    (h : Follows (next (received ++ pages)) rest) :
    Follows (receivePages rank ((received ++ pages).map Page.id) ((received ++ pages).map Page.fill)
      pages.length received next) ((pages.map Page.memory).map (.recv rank) ++ rest) := by
  induction pages generalizing received with
  | nil =>
    rw [append_nil] at h
    exact h
  | cons page pages ih =>
    rw [length_cons, receivePages]
    apply Follows.recv
    have hpage : ({ id := ((received ++ page :: pages).map Page.id).getD received.length 0
                    fill := ((received ++ page :: pages).map Page.fill).getD received.length 0
                    memory := page.memory } : Page) = page := by
      simp [getD_eq_getElem?_getD]
    rw [hpage]
    have hsplit : received ++ page :: pages = (received ++ [page]) ++ pages := by simp
    rw [hsplit] at h ⊢
    exact ih (received ++ [page]) h

theorem follows_receiveRemoteDefinitions (rank : ℕ) (sent : Manager) {next : Manager → RankProcess}
    (h : Follows (next sent) rest) :
    Follows (receiveRemoteDefinitions rank next) (sent.messages.map (.recv rank) ++ rest) :=
  .recv (.recv (.recv (.recv (follows_receivePages rank sent.pages [] h))))

theorem follows_receiveMappings (rank : ℕ) (unified : Mappings) (remote : List (List ℕ)) (counters : List ℕ)
    (type : ℕ) (mappings : Mappings) {next : Mappings → RankProcess}
    (h : Follows (next (mappings ++ receivedMappings unified remote counters type)) rest) :
    Follows (receiveMappings rank counters mappings next)
      ((mappingMessages unified remote counters type).map (.recv rank) ++ rest) := by
  induction counters generalizing type mappings with
  | nil =>
    rw [receivedMappings, append_nil] at h
    exact h
  | cons counter counters ih =>
    rw [receiveMappings, mappingMessages]
    rw [receivedMappings] at h
    by_cases hcounter : counter > 0
    · rw [if_pos hcounter] at h ⊢
      rw [if_pos hcounter]
      apply Follows.recv
      apply ih (type + 1)
      rw [append_assoc]
      exact h
    · rw [if_neg hcounter] at h ⊢
      rw [if_neg hcounter]
      apply ih (type + 1)
      rw [append_assoc]
      exact h

theorem follows_applyAndSendMappings (rank : ℕ) (unified : Mappings) (remote : List (List ℕ))
    (counters : List ℕ) (type : ℕ) (h : Follows next rest) :
    Follows (applyAndSendMappings rank unified remote counters type next)
      ((mappingMessages unified remote counters type).map (.send rank) ++ rest) := by
  induction counters generalizing type with
  | nil => exact h
  | cons counter counters ih =>
    rw [applyAndSendMappings, mappingMessages]
    split_ifs
    · exact .send (ih (type + 1))
    · exact ih (type + 1)

theorem follows_sendToChildren (unified : Mappings) (remotes : List RemoteManager) :
    Follows (sendToChildren unified remotes) (remotes.flatMap fun remote =>
      (mappingMessages unified remote.mapping remote.counters 0).map (.send remote.rank)) := by
  induction remotes with
  | nil => exact .done
  | cons remote remotes ih =>
    rw [flatMap_cons, sendToChildren]
    exact follows_applyAndSendMappings _ _ _ _ _ ih

end Parts

section Ranks

variable (unify : Manager → Manager → Manager × List (List ℕ))

def unifyChildren (sent : ℕ → Manager) : List ℕ → Manager → List RemoteManager → Manager × List RemoteManager
  | [], own, remotes => (own, remotes)
  | child :: children, own, remotes =>
    unifyChildren sent children (unify own (sent child)).1
      (remotes ++ [{ rank := child, counters := (sent child).counters, mapping := (unify own (sent child)).2 }])

variable {unify}

theorem unifyChildren_congr {sent sent' : ℕ → Manager} {children : List ℕ} {own : Manager}
    {remotes : List RemoteManager} (h : ∀ child ∈ children, sent child = sent' child) :
    unifyChildren unify sent children own remotes = unifyChildren unify sent' children own remotes := by
  induction children generalizing own remotes with
  | nil => rfl
  | cons child children ih =>
    rw [unifyChildren, unifyChildren, h child mem_cons_self]
    exact ih fun other hother => h other (mem_cons_of_mem _ hother)

theorem unifyChildren_remotes (sent : ℕ → Manager) (children : List ℕ) (own : Manager)
    (remotes : List RemoteManager) :
    ∃ added, (unifyChildren unify sent children own remotes).2 = remotes ++ added ∧
      added.map RemoteManager.rank = children ∧
      ∀ remote ∈ added, remote.counters = (sent remote.rank).counters := by
  induction children generalizing own remotes with
  | nil => exact ⟨[], by simp [unifyChildren], rfl, by simp⟩
  | cons child children ih =>
    rcases ih (unify own (sent child)).1
      (remotes ++ [⟨child, (sent child).counters, (unify own (sent child)).2⟩]) with
      ⟨added, hadded, hranks, hcounters⟩
    refine ⟨⟨child, (sent child).counters, (unify own (sent child)).2⟩ :: added, ?_, ?_, ?_⟩
    · rw [unifyChildren, hadded]
      simp
    · rw [map_cons, hranks]
    · intro remote hremote
      rcases mem_cons.mp hremote with rfl | hremote
      · rfl
      · exact hcounters remote hremote

theorem follows_receiveFromChildren (sent : ℕ → Manager) (children : List ℕ) (own : Manager)
    (remotes : List RemoteManager) {next : Manager → List RemoteManager → RankProcess}
    {rest : List (Event ℕ (List ℕ))} (h : Follows (next (unifyChildren unify sent children own remotes).1
      (unifyChildren unify sent children own remotes).2) rest) :
    Follows (receiveFromChildren unify children own remotes next)
      ((children.flatMap fun child => (sent child).messages.map (.recv child)) ++ rest) := by
  induction children generalizing own remotes with
  | nil => exact h
  | cons child children ih =>
    rw [flatMap_cons, append_assoc]
    exact follows_receiveRemoteDefinitions child (sent child) (ih _ _ h)

variable (unify) (size : ℕ) (definitions : ℕ → Manager)

def sentAt : ℕ → ℕ → Manager
  | 0, me => definitions me
  | depth + 1, me => (unifyChildren unify (sentAt depth) (childrenOf size me) (definitions me) []).1

def sent (me : ℕ) : Manager :=
  sentAt unify size definitions 32 me

def remotesOf (me : ℕ) : List RemoteManager :=
  (unifyChildren unify (sent unify size definitions) (childrenOf size me) (definitions me) []).2

def remoteOf (me child : ℕ) : RemoteManager :=
  ((remotesOf unify size definitions me).find? fun remote => remote.rank = child).getD
    { rank := child, counters := [], mapping := [] }

def mappingsOf (me : ℕ) : Mappings :=
  if _ : parentOf size me < me then
    receivedMappings (mappingsOf (parentOf size me))
      (remoteOf unify size definitions (parentOf size me) me).mapping (sent unify size definitions me).counters 0
  else []
termination_by me

def upTransfers (child : ℕ) : List (Transfer ℕ (List ℕ)) :=
  (sent unify size definitions child).messages.map fun message =>
    { sender := child, receiver := parentOf size child, message := message }

def downMessages (child : ℕ) : List (List ℕ) :=
  mappingMessages (mappingsOf unify size definitions (parentOf size child))
    (remoteOf unify size definitions (parentOf size child) child).mapping
    (sent unify size definitions child).counters 0

def downTransfers (child : ℕ) : List (Transfer ℕ (List ℕ)) :=
  (downMessages unify size definitions child).map fun message =>
    { sender := parentOf size child, receiver := child, message := message }

def atBit (block : ℕ → List (Transfer ℕ (List ℕ))) (bit : ℕ) : List (Transfer ℕ (List ℕ)) :=
  (List.range size).flatMap fun child => if child ≠ 0 ∧ levelOf size child = bit then block child else []

def transfers : List (Transfer ℕ (List ℕ)) :=
  (List.range 33).flatMap (atBit size (upTransfers unify size definitions)) ++
    (List.range 33).reverse.flatMap (atBit size (downTransfers unify size definitions))

def eventsOf (me : ℕ) : List (Event ℕ (List ℕ)) :=
  ((childrenOf size me).flatMap fun child =>
      (sent unify size definitions child).messages.map (.recv child)) ++
    ((if me ≠ 0 then (sent unify size definitions me).messages.map (.send (parentOf size me)) else []) ++
      ((if me ≠ 0 then (downMessages unify size definitions me).map (.recv (parentOf size me)) else []) ++
        (childrenOf size me).reverse.flatMap fun child =>
          (downMessages unify size definitions child).map (.send child)))

variable {size} (hsize : size ≤ 2 ^ 30)

include hsize

theorem levelOf_child {p child : ℕ} (hp : p < size) (hchild : child ∈ childrenOf size p) :
    levelOf size child < levelOf size p := by
  rcases (mem_childrenOf hsize hp).mp hchild with ⟨bit, hbit, rfl, hlt⟩
  have h := (atLevel_levelOf hsize hp).child hbit hlt
  rw [h.1.eq_levelOf hsize h.2]
  exact hbit

theorem sentAt_succ {depth me : ℕ} (hme : me < size) (hdepth : levelOf size me ≤ depth) :
    sentAt unify size definitions (depth + 1) me = sentAt unify size definitions depth me := by
  induction depth generalizing me with
  | zero =>
    have hlevel : levelOf size me = 0 := by omega
    have hnone : childrenOf size me = [] := by rw [childrenOf_eq, hlevel]; rfl
    simp [sentAt, hnone, unifyChildren]
  | succ depth ih =>
    rw [sentAt]
    conv_rhs => rw [sentAt]
    rw [unifyChildren_congr]
    intro child hchild
    have hlevel := levelOf_child hsize hme hchild
    exact ih ((mem_childrenOf_iff hsize hme).mp hchild).1 (by omega)

theorem sent_eq {me : ℕ} (hme : me < size) : sent unify size definitions me =
      (unifyChildren unify (sent unify size definitions) (childrenOf size me) (definitions me) []).1 := by
  have hlevel : levelOf size me ≤ 32 := findParent_le (npot size) me 32 0
  conv_lhs => rw [sent, ← sentAt_succ unify definitions hsize hme hlevel, sentAt]
  rfl

theorem remotesOf_eq {me : ℕ} (hme : me < size) :
    remotesOf unify size definitions me = (childrenOf size me).map (remoteOf unify size definitions me) ∧
      ∀ child ∈ childrenOf size me, (remoteOf unify size definitions me child).rank = child ∧
        (remoteOf unify size definitions me child).counters = (sent unify size definitions child).counters := by
  rcases @unifyChildren_remotes unify (sent unify size definitions) (childrenOf size me)
    (definitions me) [] with ⟨added, hadded, hranks, hcounters⟩
  have hremotes : remotesOf unify size definitions me = added := by
    rw [remotesOf, hadded, nil_append]
  have hnodup : (added.map RemoteManager.rank).Nodup := hranks ▸ nodup_childrenOf hsize hme
  have hfind : ∀ remote ∈ added, remoteOf unify size definitions me remote.rank = remote := by
    intro remote hremote
    have hsome : added.find? (fun other => other.rank = remote.rank) = some remote := by
      rw [find?_eq_some_iff_append]
      rcases append_of_mem hremote with ⟨before, after, rfl⟩
      refine ⟨by simp, before, after, rfl, ?_⟩
      intro other hother
      rw [map_append, nodup_append] at hnodup
      have hne := hnodup.2.2 other.rank (mem_map_of_mem hother) remote.rank (by simp)
      simpa using hne
    rw [remoteOf, hremotes, hsome]
    rfl
  constructor
  · rw [hremotes, ← hranks, map_map]
    symm
    exact (map_congr_left hfind).trans (map_id added)
  · intro child hchild
    rw [← hranks] at hchild
    rcases mem_map.mp hchild with ⟨remote, hremote, rfl⟩
    rw [hfind remote hremote]
    exact ⟨rfl, hcounters remote hremote⟩

theorem follows_eventsOf (hpos : 0 < size) {me : ℕ} (hme : me < size) :
    Follows (rankProcess unify size me (definitions me)) (eventsOf unify size definitions me) := by
  have hpartners := commPartners_eq me hpos hsize
  have hchildren : (((childrenOf size me).map some).take (childrenOf size me).length).filterMap id =
      childrenOf size me := by
    rw [← length_map (f := some), take_length]
    simp
  rw [rankProcess, hpartners]
  change Follows (unifyMppHierarchical unify me (parentOf size me)
    ((((childrenOf size me).map some).take (childrenOf size me).length).filterMap id) (definitions me)) _
  rw [hchildren, unifyMppHierarchical, eventsOf]
  apply follows_receiveFromChildren (sent unify size definitions)
  rw [← sent_eq unify definitions hsize hme]
  change Follows (if parentOf size me ≠ me then
      sendLocalUnifiedDefinitionsToParent (parentOf size me) (sent unify size definitions me) <|
        receiveMappings (parentOf size me) (sent unify size definitions me).counters [] fun unified =>
          sendToChildren unified (remotesOf unify size definitions me).reverse
    else sendToChildren [] (remotesOf unify size definitions me).reverse) _
  rcases remotesOf_eq unify definitions hsize hme with ⟨hremotes, hkept⟩
  have hdown : (remotesOf unify size definitions me).reverse.flatMap (fun remote =>
      (mappingMessages (mappingsOf unify size definitions me) remote.mapping remote.counters 0).map
        (Event.send remote.rank)) =
      (childrenOf size me).reverse.flatMap fun child =>
        (downMessages unify size definitions child).map (.send child) := by
    rw [hremotes, ← map_reverse, flatMap_map]
    apply flatMap_congr
    intro child hchild
    rw [mem_reverse] at hchild
    rcases hkept child hchild with ⟨hrank, hcounters⟩
    have hparent := ((mem_childrenOf_iff hsize hme).mp hchild).2.2
    rw [hrank, hcounters, downMessages, hparent]
  have hchildrenFollow := follows_sendToChildren (mappingsOf unify size definitions me)
    (remotesOf unify size definitions me).reverse
  rw [hdown] at hchildrenFollow
  by_cases hzero : me = 0
  · subst hzero
    have hroot : mappingsOf unify size definitions 0 = [] := by
      rw [mappingsOf, dif_neg (Nat.not_lt_zero _)]
    rw [hroot] at hchildrenFollow
    simpa [parentOf_zero] using hchildrenFollow
  · have hlt := parentOf_lt hsize hme hzero
    have hmappings : mappingsOf unify size definitions me =
        receivedMappings (mappingsOf unify size definitions (parentOf size me))
          (remoteOf unify size definitions (parentOf size me) me).mapping
          (sent unify size definitions me).counters 0 := by
      rw [mappingsOf, dif_pos hlt]
    rw [if_pos (by omega), if_pos hzero, if_pos hzero]
    apply follows_sendLocal
    apply follows_receiveMappings
    rw [nil_append, ← hmappings]
    exact hchildrenFollow

/-! ## The list of all messages -/

omit hsize in
theorem flatMap_range_eq {β : Type} {f : ℕ → List β} {n i : ℕ} (hi : i < n)
    (h : ∀ j, j ≠ i → f j = []) : (List.range n).flatMap f = f i := by
  obtain ⟨rest, rfl⟩ := Nat.exists_eq_add_of_lt hi
  have hlow : (List.range i).flatMap f = [] := by
    apply flatMap_eq_nil_iff.mpr
    intro j hj
    exact h j (mem_range.mp hj).ne
  have hhigh : ((List.range rest).map (i + 1 + ·)).flatMap f = [] := by
    apply flatMap_eq_nil_iff.mpr
    intro j hj
    rcases mem_map.mp hj with ⟨k, -, rfl⟩
    exact h _ (by omega)
  rw [Nat.add_right_comm, range_add, flatMap_append, hhigh, range_succ, flatMap_append, hlow]
  simp

omit hsize in
theorem flatMap_levels {β : Type} {f g : ℕ → List β} {level n : ℕ} (hlevel : level < n)
    (hlow : ∀ bit < level, f bit = g bit) (hhigh : ∀ bit, level < bit → f bit = []) :
    (List.range n).flatMap f = (List.range level).flatMap g ++ f level ∧
      (List.range n).reverse.flatMap f = f level ++ (List.range level).reverse.flatMap g := by
  obtain ⟨rest, rfl⟩ := Nat.exists_eq_add_of_lt hlevel
  have hsame : (List.range level).flatMap f = (List.range level).flatMap g :=
    flatMap_congr fun bit hbit => hlow bit (mem_range.mp hbit)
  have hsame' : (List.range level).reverse.flatMap f = (List.range level).reverse.flatMap g :=
    flatMap_congr fun bit hbit => hlow bit (mem_range.mp (mem_reverse.mp hbit))
  have hnone : ∀ j ∈ (List.range rest).map (level + 1 + ·), f j = [] := by
    intro j hj
    rcases mem_map.mp hj with ⟨k, -, rfl⟩
    exact hhigh _ (by omega)
  have hnil := flatMap_eq_nil_iff.mpr hnone
  have hnil' : ((List.range rest).map (level + 1 + ·)).reverse.flatMap f = [] := by
    apply flatMap_eq_nil_iff.mpr
    intro j hj
    exact hnone j (mem_reverse.mp hj)
  rw [Nat.add_right_comm, range_add, flatMap_append, reverse_append, flatMap_append,
    hnil, hnil', range_succ, flatMap_append, reverse_append, flatMap_append, hsame]
  simp [hsame']

section Blocks

variable (block : ℕ → List (Transfer ℕ (List ℕ))) {p : ℕ}

theorem filterMap_atBit (hp : p < size)
    (houter : ∀ child, p ≠ child → p ≠ parentOf size child → (block child).filterMap (event p) = []) (bit : ℕ) :
    (atBit size block bit).filterMap (event p) = if bit < levelOf size p then
        if p ^^^ 2 ^ bit < size then (block (p ^^^ 2 ^ bit)).filterMap (event p) else []
      else if bit = levelOf size p ∧ p ≠ 0 then (block p).filterMap (event p) else [] := by
  have hlevel := atLevel_levelOf hsize hp
  have hsee : (atBit size block bit).filterMap (event p) = (List.range size).flatMap fun child =>
      if child < size ∧ child ≠ 0 ∧ levelOf size child = bit then (block child).filterMap (event p)
      else [] := by
    rw [atBit, filterMap_flatMap]
    apply flatMap_congr
    intro child hchild
    have hlt := mem_range.mp hchild
    by_cases h : child ≠ 0 ∧ levelOf size child = bit
    · rw [if_pos h, if_pos ⟨hlt, h⟩]
    · rw [if_neg h, if_neg (fun h' => h h'.2)]
      rfl
  rw [hsee]
  by_cases hbit : bit < levelOf size p
  · have hxor := xor_two_pow ((pow_dvd_pow 2 hbit).trans hlevel.dvd)
    rw [if_pos hbit, hxor]
    have hother : ∀ child, child ≠ p + 2 ^ bit →
        (if child < size ∧ child ≠ 0 ∧ levelOf size child = bit then (block child).filterMap (event p)
          else []) = [] := by
      intro child hne
      split_ifs with h
      · apply houter child
        · rintro rfl
          omega
        · intro hparent
          have hsum := (parentOf_eq hsize h.1 h.2.1).2.1
          rw [← hparent, h.2.2] at hsum
          exact hne hsum.symm
      · rfl
    by_cases hlt : p + 2 ^ bit < size
    · have hchild := hlevel.child hbit hlt
      have hchildLevel := hchild.1.eq_levelOf hsize hchild.2
      have hpos := Nat.two_pow_pos bit
      rw [if_pos hlt, flatMap_range_eq hlt hother, if_pos ⟨hlt, by omega, hchildLevel⟩]
    · rw [if_neg hlt]
      apply flatMap_eq_nil_iff.mpr
      intro child hchild
      have hmem := mem_range.mp hchild
      exact hother child (by omega)
  · rw [if_neg hbit]
    have hother : ∀ child, child ≠ p →
        (if child < size ∧ child ≠ 0 ∧ levelOf size child = bit then (block child).filterMap (event p)
          else []) = [] := by
      intro child hne
      split_ifs with h
      · apply houter child hne.symm
        intro hparent
        have hmem := (mem_childrenOf_iff hsize hp).mpr ⟨h.1, hne, hparent.symm⟩
        have hlower := levelOf_child hsize hp hmem
        omega
      · rfl
    rw [flatMap_range_eq hp hother]
    by_cases hown : bit = levelOf size p ∧ p ≠ 0
    · rw [if_pos hown, if_pos ⟨hp, hown.2, hown.1.symm⟩]
    · rw [if_neg hown, if_neg (fun h => hown ⟨h.2.2.symm, h.2.1⟩)]

omit hsize in
theorem flatMap_childrenBelow {β : Type} (f : ℕ → List β) (me bits : ℕ) :
    (childrenBelow size me bits).flatMap f = (List.range bits).flatMap (fun bit =>
        if me ^^^ 2 ^ bit < size then f (me ^^^ 2 ^ bit) else []) ∧
      (childrenBelow size me bits).reverse.flatMap f = (List.range bits).reverse.flatMap fun bit =>
        if me ^^^ 2 ^ bit < size then f (me ^^^ 2 ^ bit) else [] := by
  induction bits with
  | zero => exact ⟨rfl, rfl⟩
  | succ bits ih =>
    rw [childrenBelow_succ, range_succ]
    by_cases h : me ^^^ 2 ^ bits < size
    · simp [h, ih.1, ih.2]
    · simp [h, ih.1, ih.2]

theorem filterMap_levels (hp : p < size)
    (houter : ∀ child, p ≠ child → p ≠ parentOf size child → (block child).filterMap (event p) = []) :
    ((List.range 33).flatMap (atBit size block)).filterMap (event p) =
        ((childrenOf size p).flatMap fun child => (block child).filterMap (event p)) ++
          (if p ≠ 0 then (block p).filterMap (event p) else []) ∧
      ((List.range 33).reverse.flatMap (atBit size block)).filterMap (event p) =
        (if p ≠ 0 then (block p).filterMap (event p) else []) ++
          (childrenOf size p).reverse.flatMap fun child => (block child).filterMap (event p) := by
  have hat := filterMap_atBit hsize block hp houter
  have hbits : levelOf size p < 33 := Nat.lt_succ_of_le (findParent_le (npot size) p 32 0)
  have hsplit := flatMap_levels (f := fun bit => (atBit size block bit).filterMap (event p))
    (g := fun bit => if p ^^^ 2 ^ bit < size then (block (p ^^^ 2 ^ bit)).filterMap (event p) else []) hbits
    (fun bit hbit => by rw [hat, if_pos hbit])
    (fun bit hbit => by rw [hat, if_neg (by omega), if_neg (by omega)])
  have hown : (atBit size block (levelOf size p)).filterMap (event p) =
      if p ≠ 0 then (block p).filterMap (event p) else [] := by
    rw [hat, if_neg (lt_irrefl _)]
    simp
  have hchildren := @flatMap_childrenBelow size _ (fun child => (block child).filterMap (event p)) p
    (levelOf size p)
  rw [childrenOf_eq, filterMap_flatMap, filterMap_flatMap, hsplit.1, hsplit.2, hchildren.1, hchildren.2, hown]
  exact ⟨rfl, rfl⟩

end Blocks

omit hsize in
theorem filterMap_event {p sender receiver : ℕ} (messages : List (List ℕ)) :
    (messages.map fun message => (⟨sender, receiver, message⟩ : Transfer ℕ (List ℕ))).filterMap (event p) =
      if sender = p then messages.map (.send receiver) else if receiver = p then messages.map (.recv sender)
      else [] := by
  rw [filterMap_map]
  split_ifs with hsender hreceiver
  · rw [← filterMap_eq_map]
    congr 1
    funext message
    simp [event, view, hsender]
  · rw [← filterMap_eq_map]
    congr 1
    funext message
    simp [event, view, hsender, hreceiver]
  · apply filterMap_eq_nil_iff.mpr
    intro message _
    simp [event, view, hsender, hreceiver]

theorem filterMap_transfers {p : ℕ} (hp : p < size) :
    (transfers unify size definitions).filterMap (event p) = eventsOf unify size definitions p := by
  have hup := filterMap_levels hsize (upTransfers unify size definitions) hp (by
    intro child hchild hparent
    rw [upTransfers, filterMap_event, if_neg hchild.symm, if_neg hparent.symm])
  have hdown := filterMap_levels hsize (downTransfers unify size definitions) hp (by
    intro child hchild hparent
    rw [downTransfers, filterMap_event, if_neg hparent.symm, if_neg hchild.symm])
  have hchildUp : ∀ child ∈ childrenOf size p, (upTransfers unify size definitions child).filterMap (event p) =
      (sent unify size definitions child).messages.map (.recv child) := by
    intro child hchild
    rcases (mem_childrenOf_iff hsize hp).mp hchild with ⟨-, hne, hparent⟩
    rw [upTransfers, filterMap_event, if_neg hne, if_pos hparent]
  have hchildDown : ∀ child ∈ (childrenOf size p).reverse,
      (downTransfers unify size definitions child).filterMap (event p) =
        (downMessages unify size definitions child).map (.send child) := by
    intro child hchild
    rcases (mem_childrenOf_iff hsize hp).mp (mem_reverse.mp hchild) with ⟨-, hne, hparent⟩
    rw [downTransfers, filterMap_event, if_pos hparent]
  have hownUp : (upTransfers unify size definitions p).filterMap (event p) =
      (sent unify size definitions p).messages.map (.send (parentOf size p)) := by
    rw [upTransfers, filterMap_event, if_pos rfl]
  have hownDown : p ≠ 0 → (downTransfers unify size definitions p).filterMap (event p) =
      (downMessages unify size definitions p).map (.recv (parentOf size p)) := by
    intro hzero
    have hlt := parentOf_lt hsize hp hzero
    rw [downTransfers, filterMap_event, if_neg (by omega), if_pos rfl]
  rw [transfers, filterMap_append, hup.1, hdown.2, eventsOf, flatMap_congr hchildUp,
    flatMap_congr hchildDown, hownUp, append_assoc]
  by_cases hzero : p = 0
  · simp [hzero]
  · simp [hzero, hownDown hzero]

theorem mem_transfers {t : Transfer ℕ (List ℕ)} (ht : t ∈ transfers unify size definitions) :
    t.sender < size ∧ t.receiver < size ∧ t.sender ≠ t.receiver := by
  have hblock : ∀ block : ℕ → List (Transfer ℕ (List ℕ)), ∀ bit, t ∈ atBit size block bit →
      ∃ child, child < size ∧ child ≠ 0 ∧ t ∈ block child := by
    intro block bit hmem
    rcases mem_flatMap.mp hmem with ⟨child, hchild, hmem⟩
    split_ifs at hmem with h
    · exact ⟨child, mem_range.mp hchild, h.1, hmem⟩
    · exact absurd hmem not_mem_nil
  rcases mem_append.mp ht with hup | hdown
  · rcases mem_flatMap.mp hup with ⟨bit, -, hmem⟩
    rcases hblock _ bit hmem with ⟨child, hlt, hzero, hmem⟩
    rcases mem_map.mp hmem with ⟨message, -, rfl⟩
    have hparent := parentOf_lt hsize hlt hzero
    exact ⟨hlt, hparent.trans hlt, hparent.ne'⟩
  · rcases mem_flatMap.mp hdown with ⟨bit, -, hmem⟩
    rcases hblock _ bit hmem with ⟨child, hlt, hzero, hmem⟩
    rcases mem_map.mp hmem with ⟨message, -, rfl⟩
    have hparent := parentOf_lt hsize hlt hzero
    exact ⟨hparent.trans hlt, hlt, hparent.ne⟩

theorem agreed_processes (hpos : 0 < size) : Agreed ((transfers unify size definitions).map fun t => (t, false))
      (start (processes unify size definitions)) := by
  apply agreed_start
  · intro p
    rw [processes]
    split_ifs with hp
    · rw [filterMap_transfers unify definitions hsize hp]
      exact follows_eventsOf unify definitions hsize hpos hp
    · have hnone : (transfers unify size definitions).filterMap (event p) = [] := by
        apply filterMap_eq_nil_iff.mpr
        intro t ht
        have hmem := mem_transfers unify definitions hsize ht
        simp [event, view, show t.sender ≠ p by omega, show t.receiver ≠ p by omega]
      rw [hnone]
      exact .done
  · intro t ht
    exact (mem_transfers unify definitions hsize ht).2.2

theorem exists_iterate_parentOf {me : ℕ} (hme : me < size) : ∃ n, (parentOf size)^[n] me = 0 := by
  induction me using Nat.strongRecOn with
  | _ me ih =>
    by_cases hzero : me = 0
    · exact ⟨0, hzero⟩
    · have hlt := parentOf_lt hsize hme hzero
      rcases ih (parentOf size me) hlt (hlt.trans hme) with ⟨n, hn⟩
      exact ⟨n + 1, hn⟩

end Ranks

/-- The partners that the ranks calculate are one tree, and whatever the definitions are and in whatever
order the ranks go on, no set of them waits for each other. -/
theorem spanning_tree {size : ℕ} (hpos : 1 ≤ size) (hsize : size ≤ 2 ^ 30)
    (unify : Manager → Manager → Manager × List (List ℕ)) (definitions : ℕ → Manager) :
    ∃ (parent : ℕ → ℕ) (children : ℕ → List ℕ), (∀ me < size, commPartners size me = some
        { parent := parent me
          children := (children me).map some
          numberOfChildren := (children me).length }) ∧
      parent 0 = 0 ∧ (∀ r < size, r ≠ 0 → parent r < r) ∧ (∀ r < size, ∃ n, parent^[n] r = 0) ∧
      (∀ p < size, ∀ r, r ∈ children p ↔ r < size ∧ r ≠ p ∧ parent r = p) ∧
      (∀ p < size, (children p).Nodup) ∧
      ∀ actions s, Foundations.Steps (fun s a t => step s a = some t)
        (start (processes unify size definitions)) actions s → ¬ MutualWait s := by
  refine ⟨parentOf size, childrenOf size, ?_, parentOf_zero size, ?_, ?_, ?_, ?_, ?_⟩
  · intro me _
    exact commPartners_eq me hpos hsize
  · intro r hr hzero
    exact parentOf_lt hsize hr hzero
  · intro r hr
    exact exists_iterate_parentOf hsize hr
  · intro p hp r
    exact mem_childrenOf_iff hsize hp
  · intro p hp
    exact nodup_childrenOf hsize hp
  · intro actions s hrun
    rcases (agreed_processes unify definitions hsize hpos).run hrun with ⟨remaining, hagreed⟩
    exact hagreed.not_mutualWait

/-- Six ranks without definitions. -/
theorem spanning_tree_six : ∃ (parent : ℕ → ℕ) (children : ℕ → List ℕ), (∀ me < 6, commPartners 6 me = some
        { parent := parent me
          children := (children me).map some
          numberOfChildren := (children me).length }) ∧
      parent 0 = 0 ∧ (∀ r < 6, r ≠ 0 → parent r < r) ∧ (∀ r < 6, ∃ n, parent^[n] r = 0) ∧
      (∀ p < 6, ∀ r, r ∈ children p ↔ r < 6 ∧ r ≠ p ∧ parent r = p) ∧
      (∀ p < 6, (children p).Nodup) ∧
      ∀ actions s, Foundations.Steps (fun s a t => step s a = some t)
        (start (processes (fun own _ => (own, [])) 6 fun _ => { counters := [1], pages := [] })) actions s →
          ¬ MutualWait s :=
  spanning_tree (by decide) (by decide) (fun own _ => (own, [])) fun _ => { counters := [1], pages := [] }

end ScoreP.Definitions

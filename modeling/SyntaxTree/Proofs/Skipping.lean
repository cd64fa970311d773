import SyntaxTree.Proofs.Kinship

/-!
# Walks with skips

The reader of a walk may ask to skip at any time. A walk has no memory of what it entered: a skip acts on the event that
comes next, and turns an entry into leaving the parent. `Pruned` says what the reader means by it, as a recursion over the
tree in which a skip drops the nodes that would come next in a list of children. `reachable_pruned` shows that the walk
does just that, as long as its start is entered: what is dropped after entering a node are its children, and after leaving
it the siblings after it.

A skip before the first event is the exception, since what it turns is the entry of the start. The walk then leaves the
parent of the start and goes on from there, and where there is no parent it faults. `reachable_confined_iff` shows that
nothing else leads out of the tree below the start.
-/

namespace SyntaxTree.Walk

variable {m : Model} {text : String} {skips : Nat → Nat} {start s n p c : NodeId} {k : Nat} {ids : List NodeId}
  {walk mid last : Walk} {events more : List WalkEvent}

/-! ## Calls -/

/-- A call for the next event, before which the reader skips so many times. -/
def call (m : Model) (times : Nat) (walk : Walk) : Except Fault (Option WalkEvent × Walk) :=
  (skip^[times] walk).next m

/-- The answer to a call, where `done` calls come before the first one and the reader skips `skips i` times right before
call number `i`. -/
def answerFrom (m : Model) (skips : Nat → Nat) : Nat → Nat → Walk → Except Fault (Option WalkEvent)
  | 0, done, walk => do
    let (answer, _) ← call m (skips done) walk
    return answer
  | k + 1, done, walk => do
    let (_, walk) ← call m (skips done) walk
    answerFrom m skips k (done + 1) walk

/-- The answer to call number `k` of a walk from `start`. -/
def answer (m : Model) (start : NodeId) (skips : Nat → Nat) (k : Nat) : Except Fault (Option WalkEvent) :=
  answerFrom m skips k 0 (begin start)

/-- Skipping more than once is skipping once. -/
theorem iterate_skip (times : Nat) (walk : Walk) : skip^[times] walk = if times = 0 then walk else walk.skip := by
  cases times with
  | zero => rfl
  | succ times =>
    rw [if_neg (Nat.succ_ne_zero times), Function.iterate_succ_apply]
    exact Function.iterate_fixed rfl times

/-- A walk that is over stays so. -/
theorem call_spent (times : Nat) : call m times ⟨start, none, false⟩ = .ok (none, ⟨start, none, false⟩) := by
  rw [call, iterate_skip]
  split <;> rfl

/-- A skip has no effect on leaving a node. -/
theorem call_leave (times : Nat) : call m times ⟨start, some (.leave n), false⟩
    = .ok (some (.leave n), ⟨start, (WalkEvent.leave n).following? m start, false⟩) := by
  rw [call, iterate_skip]
  split <;> rfl

/-- Without a skip the walk goes on to what comes next. -/
theorem call_onward {times : Nat} (hskip : times = 0) (event : WalkEvent) :
    call m times ⟨start, some event, false⟩ = .ok (some event, ⟨start, event.following? m start, false⟩) := by
  rw [call, iterate_skip, if_pos hskip]
  rfl

/-- A skip acts on what comes next. -/
theorem call_skip {times : Nat} (hskip : times ≠ 0) (event : WalkEvent) : call m times ⟨start, some event, false⟩
    = (event.skipped m).map fun event => (some event, ⟨start, event.following? m start, false⟩) := by
  rw [call, iterate_skip, if_neg hskip]
  change (event.skipped m >>= _) = _
  cases event.skipped m <;> rfl

/-! ## Several calls in a row -/

/-- The calls from number `done` on are answered with these events, and lead from one walk to the other. -/
def Yields (m : Model) (skips : Nat → Nat) : Nat → Walk → List WalkEvent → Walk → Prop
  | _, walk, [], last => walk = last
  | done, walk, event :: events, last =>
    ∃ following, call m (skips done) walk = .ok (some event, following) ∧ Yields m skips (done + 1) following events last

theorem Yields.append (hyields : Yields m skips k walk events mid)
    (hmore : Yields m skips (k + events.length) mid more last) : Yields m skips k walk (events ++ more) last := by
  induction events generalizing k walk with
  | nil =>
    obtain rfl := hyields
    exact hmore
  | cons event events ih =>
    obtain ⟨following, hcall, hyields⟩ := hyields
    rw [List.length_cons, ← Nat.add_assoc, Nat.add_right_comm] at hmore
    exact ⟨following, hcall, ih hyields hmore⟩

/-- A walk that enters a node goes on with its children. -/
theorem Yields.enter (hforms : m.links.Forms m.children) (hskip : skips k = 0)
    (hyields : Yields m skips (k + 1) ⟨start, some ((m.children n).head?.elim (.leave n) .enter), false⟩ events last) :
    Yields m skips k ⟨start, some (.enter n), false⟩ (.enter n :: events) last := by
  rw [← Model.following?_enter hforms] at hyields
  exact ⟨_, call_onward hskip _, hyields⟩

/-- Where a walk ends, every call is answered with the next of its events, and with nothing after them. -/
theorem Yields.answerFrom_eq (hyields : Yields m skips k walk events ⟨start, none, false⟩) (i : Nat) :
    answerFrom m skips i k walk = .ok events[i]? := by
  induction i generalizing k walk events with
  | zero =>
    cases events with
    | nil =>
      obtain rfl := hyields
      rw [answerFrom, call_spent]
      rfl
    | cons event events =>
      obtain ⟨following, hcall, -⟩ := hyields
      rw [answerFrom, hcall]
      rfl
  | succ i ih =>
    cases events with
    | nil =>
      obtain rfl := hyields
      rw [answerFrom, call_spent]
      -- the walk that is over has no events to come, so the induction goes on with it
      exact @ih (k + 1) ⟨start, none, false⟩ [] rfl
    | cons event events =>
      obtain ⟨following, hcall, hyields⟩ := hyields
      rw [answerFrom, hcall]
      exact ih hyields

/-- A run that has steps enough meets all events of a walk. -/
theorem Yields.eventsWithin_eq {list : List Nat} (hlist : ∀ i, i ∈ list ↔ skips i ≠ 0)
    (hyields : Yields m skips k walk events ⟨start, none, false⟩) {steps : Nat} (hsteps : events.length < steps) :
    eventsWithin m list steps k walk = events.map .ok := by
  induction steps generalizing k walk events with
  | zero => exact absurd hsteps (Nat.not_lt_zero _)
  | succ steps ih =>
    -- the run skips once wherever the reader skips at all
    have hcalled : (if k ∈ list then walk.skip else walk).next m = call m (skips k) walk := by
      rw [call, iterate_skip]
      simp only [hlist, ite_not]
    cases events with
    | nil =>
      obtain rfl := hyields
      rw [eventsWithin, hcalled, call_spent]
      rfl
    | cons event events =>
      obtain ⟨following, hcall, hyields⟩ := hyields
      rw [eventsWithin, hcalled, hcall]
      exact congrArg _ (ih hyields (Nat.lt_of_succ_lt_succ hsteps))

/-! ## What skips leave of a walk -/

/-- What is left of walking through `ids`, one node after the other, from call number `k` on. The reader may skip what
is left of the list before each of its nodes. -/
inductive Pruned (m : Model) (skips : Nat → Nat) : Nat → List NodeId → List WalkEvent → Prop where
  /-- There is nothing to walk through. -/
  | nil {k : Nat} : Pruned m skips k [] []
  /-- The reader skips what is left. -/
  | cut {k : Nat} {ids : List NodeId} : skips k ≠ 0 → Pruned m skips k ids []
  /-- The first node is entered, its children are walked through, and it is left before the others have their turn. -/
  | node {k : Nat} {c : NodeId} {after : List NodeId} {below rest : List WalkEvent} : skips k = 0 →
    Pruned m skips (k + 1) (m.children c) below → Pruned m skips (k + below.length + 2) after rest →
    Pruned m skips k (c :: after) (.enter c :: (below ++ .leave c :: rest))

/-- There is one answer to what skips leave. -/
theorem Pruned.unique (hpruned : Pruned m skips k ids events) (hother : Pruned m skips k ids more) : events = more := by
  induction hpruned generalizing more with
  | nil => cases hother <;> rfl
  | cut hskip =>
    cases hother with
    | nil => rfl
    | cut => rfl
    | node hnot => exact absurd hnot hskip
  | node hskip _ _ ihbelow ihrest =>
    cases hother with
    | cut hnot => exact absurd hskip hnot
    | node _ hbelow hrest =>
      obtain rfl := ihbelow hbelow
      rw [ihrest hrest]

/-- A walk that goes through the children of a node, from one of them on, meets what skips leave of them and then leaves the
node. The induction follows the recursion; the start of the walk is not below any of these children. -/
theorem Pruned.yields (hpruned : Pruned m skips k ids events) (h : m.WellFormed) {before : List NodeId}
    (hsplit : m.children p = before ++ ids) (hstart : p ∉ m.ancestors start) :
    Yields m skips k ⟨start, some (ids.head?.elim (.leave p) .enter), false⟩ (events ++ [.leave p])
      ⟨start, (WalkEvent.leave p).following? m start, false⟩ := by
  induction hpruned generalizing before p with
  | nil => exact ⟨_, call_leave _, rfl⟩
  | @cut k ids hskip =>
    cases ids with
    | nil => exact ⟨_, call_leave _, rfl⟩
    | cons c after =>
      -- the entry that the skip turns is that of a child, so the walk leaves the node
      have hparent : m.parent? c = some p := (h.structured.forms.ring hsplit).1
      have hskipped : (WalkEvent.enter c).skipped m = .ok (.leave p) := by rw [WalkEvent.skipped, hparent]
      refine ⟨_, ?_, rfl⟩
      rw [List.head?_cons, Option.elim_some, call_skip hskip, hskipped]
      rfl
  | @node k c after below rest hskip _ _ ihbelow ihrest =>
    have hc : c ∈ m.children p := h.structured.forms.mem_of_split hsplit
    have habove : c ∉ start :: m.ancestors start := fun hmem => hstart (h.mem_ancestors_of_child hc hmem)
    -- through the node, out of it, and on with its siblings
    have hbelow := (ihbelow (List.nil_append _).symm (List.not_mem_of_not_mem_cons habove)).enter
      h.structured.forms hskip
    rw [Model.following?_leave h.structured.forms hsplit (List.ne_of_not_mem_cons habove)] at hbelow
    have hlength : k + below.length + 2 = k + (WalkEvent.enter c :: (below ++ [.leave c])).length := by
      rw [List.length_cons, List.length_append, List.length_singleton]
      omega
    have hsiblings : m.children p = before ++ [c] ++ after := by rw [hsplit, List.append_assoc, List.singleton_append]
    have hrest := ihrest hsiblings hstart
    rw [hlength] at hrest
    have hall := hbelow.append hrest
    rw [List.cons_append, List.append_assoc, List.singleton_append] at hall
    rwa [List.cons_append, List.append_assoc, List.cons_append]

/-- Whatever the skips, there is something that they leave of a walk. The induction goes down the tree, and among the
children of a node along the list. -/
theorem exists_pruned (h : m.WellFormed) (skips : Nat → Nat) (n : NodeId) (k : Nat) :
    ∃ below, Pruned m skips k (m.children n) below := by
  induction n using Model.descend h.structured.forms h.structured.grounded generalizing k with
  | step n ih =>
  have hlist : ∀ ids ⊆ m.children n, ∀ k, ∃ events, Pruned m skips k ids events := by
    intro ids
    induction ids with
    | nil => exact fun _ _ => ⟨[], .nil⟩
    | cons c after ihafter =>
      intro hids k
      obtain ⟨hc, hafter⟩ := List.cons_subset.1 hids
      rcases Nat.eq_zero_or_pos (skips k) with hskip | hskip
      · obtain ⟨below, hbelow⟩ := ih c hc (k + 1)
        obtain ⟨rest, hrest⟩ := ihafter hafter (k + below.length + 2)
        exact ⟨_, .node hskip hbelow hrest⟩
      · exact ⟨[], .cut (Nat.ne_of_gt hskip)⟩
  exact hlist _ (List.Subset.refl _) k

/-- A walk through a list goes through its first node, what is below it, and the rest of the list. -/
theorem flatMap_events_cons (h : m.WellFormed) (hc : c < m.size) (after : List NodeId) : (c :: after).flatMap m.events
    = .enter c :: ((m.children c).flatMap m.events ++ .leave c :: after.flatMap m.events) := by
  rw [List.flatMap_cons, h.events_eq hc, List.cons_append, List.append_assoc, List.singleton_append]

/-- What skips leave of a walk is part of it. -/
theorem Pruned.sublist (hpruned : Pruned m skips k ids events) (h : m.WellFormed) (hids : ∀ c ∈ ids, c < m.size) :
    events.Sublist (ids.flatMap m.events) := by
  induction hpruned with
  | nil => exact List.Sublist.refl _
  | cut => exact List.nil_sublist _
  | @node k c after below rest _ _ _ ihbelow ihrest =>
    obtain ⟨hc, hafter⟩ := List.forall_mem_cons.1 hids
    have hbelow := ihbelow fun d hd => h.lt_size_of_mem hd
    rw [flatMap_events_cons h hc]
    exact (hbelow.append ((ihrest hafter).cons_cons _)).cons_cons _

/-- A reader who never skips sees it all. -/
theorem Pruned.eq_of_never (hpruned : Pruned m skips k ids events) (h : m.WellFormed) (hids : ∀ c ∈ ids, c < m.size)
    (hnever : ∀ i, skips i = 0) : events = ids.flatMap m.events := by
  induction hpruned with
  | nil => rfl
  | cut hskip => exact absurd (hnever _) hskip
  | @node k c after below rest _ _ _ ihbelow ihrest =>
    obtain ⟨hc, hafter⟩ := List.forall_mem_cons.1 hids
    rw [flatMap_events_cons h hc, ihbelow fun d hd => h.lt_size_of_mem hd, ihrest hafter]

/-! ## Whole walks -/

/-- A walk that enters its start leaves it in the end. -/
theorem Pruned.yields_begin (hpruned : Pruned m skips 1 (m.children s) events) (h : m.WellFormed) (hfirst : skips 0 = 0) :
    Yields m skips 0 (begin s) (.enter s :: (events ++ [.leave s])) ⟨s, none, false⟩ := by
  have hself : s ∉ m.ancestors s := (Model.climbs_ancestors h.structured.forms h.structured.grounded s).not_mem
  have hyields := hpruned.yields h (List.nil_append _).symm hself
  rw [WalkEvent.following?, if_pos rfl] at hyields
  exact hyields.enter h.structured.forms hfirst

/-- All events of a walk with skips are events of the walk without. -/
theorem Pruned.sublist_events (hpruned : Pruned m skips 1 (m.children s) events) (h : m.WellFormed) (hs : s < m.size) :
    (WalkEvent.enter s :: (events ++ [.leave s])).Sublist (m.events s) := by
  rw [h.events_eq hs]
  exact ((hpruned.sublist h fun c hc => h.lt_size_of_mem hc).append_right _).cons_cons _

/-- The events of a walk are about its start and the nodes below. -/
theorem within_of_mem_events (h : m.WellFormed) (hs : s < m.size) {event : WalkEvent} (hevent : event ∈ m.events s) :
    event.node = s ∨ s ∈ m.ancestors event.node := by
  rw [h.events_eq_outline hs] at hevent
  exact (List.mem_cons.1 (h.mem_outline s hs event hevent).2).imp_left Eq.symm

/-- In a reachable model a walk that enters its start, however the reader skips later on, meets what the skips leave of the
tree below, leaves its start, and is over from then on. A run of the walk meets the same events. If the reader never skips,
each node at the start or below is entered and left once. -/
theorem reachable_pruned (h : Model.Reachable text m) (hs : s < m.size) (skips : Nat → Nat) (hfirst : skips 0 = 0) :
    ∃ below events, events = .enter s :: (below ++ [.leave s]) ∧ Pruned m skips 1 (m.children s) below ∧
      (∀ k, answer m s skips k = .ok events[k]?) ∧
      (∀ list : List Nat, (∀ k, k ∈ list ↔ skips k ≠ 0) → eventsSkipping m s list = events.map .ok) ∧
      ((∀ k, skips k = 0) → ∀ x, x = s ∨ s ∈ m.ancestors x →
        events.count (.enter x) = 1 ∧ events.count (.leave x) = 1) := by
  have hwf := h.coherent.toWellFormed
  obtain ⟨below, hbelow⟩ := exists_pruned hwf skips s 1
  have hyields := hbelow.yields_begin hwf hfirst
  refine ⟨below, _, rfl, hbelow, fun k => hyields.answerFrom_eq k, fun list hlist => ?_, fun hnever x hx => ?_⟩
  · have hlength := (hbelow.sublist_events hwf hs).length_le.trans (hwf.length_events_le hs)
    exact hyields.eventsWithin_eq hlist (Nat.lt_succ_of_le hlength)
  · rw [hbelow.eq_of_never hwf (fun c hc => hwf.lt_size_of_mem hc) hnever, ← hwf.events_eq hs]
    have hnodup := hwf.nodup_events hs
    have hmem := (hwf.mem_descendants_iff hs).2 hx
    exact ⟨List.count_eq_one_of_mem hnodup (Model.mem_descendants_iff_enter.1 hmem),
      List.count_eq_one_of_mem hnodup (hwf.leave_mem_events s hs x hmem)⟩

/-- A walk from a node that has a sibling. The reader skips twice after entering #3, which drops the node below it, and once
after leaving #4, which drops the sibling after that. -/
theorem reachable_pruned_twice : ∃ m, Model.Reachable "" m ∧ m.children Model.rootId = [1, 2] ∧ m.children 1 = [3, 4, 5] ∧
    m.children 3 = [6] ∧
    (∀ k, answer m 1 (fun k => if k = 2 then 2 else if k = 5 then 1 else 0) k
      = .ok [.enter 1, .enter 3, .leave 3, .enter 4, .leave 4, .leave 1][k]?) := by
  have h : Model.Reachable "" (Model.initial "") := .opened (Model.ofText_eq_ok_iff.2 ⟨by decide, rfl⟩)
  have h := h.edited (.newComposite none 0 (some 0)) (by decide) rfl
  have h := h.edited (.newComposite none 0 (some 0)) (by decide) rfl
  have h := h.edited (.newComposite none 0 (some 1)) (by decide) rfl
  have h := h.edited (.newComposite none 0 (some 1)) (by decide) rfl
  have h := h.edited (.newComposite none 0 (some 1)) (by decide) rfl
  have h := h.edited (.newComposite none 0 (some 3)) (by decide) rfl
  obtain ⟨below, _, rfl, hbelow, hanswer, -⟩ :=
    reachable_pruned (s := 1) h (by decide) (fun k => if k = 2 then 2 else if k = 5 then 1 else 0) rfl
  obtain rfl : below = [.enter 3, .leave 3, .enter 4, .leave 4] := hbelow.unique
    (@Pruned.node _ _ 1 3 [4, 5] [] [.enter 4, .leave 4] rfl (.cut (Nat.succ_ne_zero 1))
      (@Pruned.node _ _ 3 4 [5] [] [] rfl .nil (.cut (Nat.succ_ne_zero 0))))
  exact ⟨_, h, rfl, rfl, rfl, hanswer⟩

/-! ## Staying below the start -/

/-- No call faults, and all events are about the start and the nodes below. -/
def Confined (m : Model) (start : NodeId) (skips : Nat → Nat) : Prop :=
  ∀ k, ∃ answered, answer m start skips k = .ok answered ∧
    ∀ event ∈ answered, event.node = start ∨ start ∈ m.ancestors event.node

/-- A skip before the first event leaves the parent of the start, if there is one. -/
theorem answer_of_skip (hskip : skips 0 ≠ 0) :
    answer m s skips 0 = (m.parent? s).elim (.error .skipWithoutParent) fun parent => .ok (some (.leave parent)) := by
  rw [answer, answerFrom, begin, call_skip hskip, WalkEvent.skipped]
  cases m.parent? s <;> rfl

/-- In a reachable model a walk stays below its start exactly if the reader does not skip before the first event. If the
reader does, then the first call faults at a node without parent, and leaves the parent at any other. -/
theorem reachable_confined_iff (h : Model.Reachable text m) (hs : s < m.size) (skips : Nat → Nat) :
    (Confined m s skips ↔ skips 0 = 0) ∧ (skips 0 ≠ 0 → answer m s skips 0
      = (m.parent? s).elim (.error .skipWithoutParent) fun parent => .ok (some (.leave parent))) := by
  have hwf := h.coherent.toWellFormed
  refine ⟨⟨fun hconfined => ?_, fun hfirst k => ?_⟩, answer_of_skip⟩
  · by_contra hskip
    obtain ⟨answered, hanswer, hwithin⟩ := hconfined 0
    rw [answer_of_skip hskip] at hanswer
    cases hparent : m.parent? s with
    | none =>
      rw [hparent] at hanswer
      cases hanswer
    | some p =>
      rw [hparent] at hanswer
      obtain rfl := Except.ok.inj hanswer
      -- the parent of the start is not below it
      have hbelow : s ∈ p :: m.ancestors p := List.mem_cons.2 ((hwithin (.leave p) rfl).imp_left Eq.symm)
      exact hwf.not_mem_ancestors_of_mem (hwf.structured.forms.listed hparent) hbelow
  · obtain ⟨below, hbelow⟩ := exists_pruned hwf skips s 1
    refine ⟨_, (hbelow.yields_begin hwf hfirst).answerFrom_eq k, fun event hevent => ?_⟩
    have hmem := (hbelow.sublist_events hwf hs).mem (List.mem_of_getElem? hevent)
    exact within_of_mem_events hwf hs hmem

/-- Two walks in a tree in which #1 has the child #3 and the sibling #2. The one from #3 is skipped before its first event,
so it leaves #1 and goes on to #2. The one from #1 stays below, however often the reader skips later on. -/
theorem reachable_confined_iff_sibling : ∃ m, Model.Reachable "" m ∧ m.children Model.rootId = [1, 2] ∧
    m.children 1 = [3] ∧ ¬ Confined m 3 (fun _ => 1) ∧ answer m 3 (fun _ => 1) 0 = .ok (some (.leave 1)) ∧
    answer m 3 (fun k => 1 - k) 1 = .ok (some (.enter 2)) ∧ Confined m 1 (fun k => k) := by
  have h : Model.Reachable "" (Model.initial "") := .opened (Model.ofText_eq_ok_iff.2 ⟨by decide, rfl⟩)
  have h := h.edited (.newComposite none 0 (some 0)) (by decide) rfl
  have h := h.edited (.newComposite none 0 (some 0)) (by decide) rfl
  have h := h.edited (.newComposite none 0 (some 1)) (by decide) rfl
  obtain ⟨hiff, hescape⟩ := reachable_confined_iff (s := 3) h (by decide) fun _ => 1
  obtain ⟨hiff', -⟩ := reachable_confined_iff (s := 1) h (by decide) fun k => k
  exact ⟨_, h, rfl, rfl, mt hiff.1 Nat.one_ne_zero, hescape Nat.one_ne_zero, rfl, hiff'.2 rfl⟩

/-- A single skip before the first event of a walk from the root is a fault. -/
theorem not_confined_root : ∃ m, Model.Reachable "" m ∧ Model.rootId < m.size ∧
    answer m Model.rootId (fun k => if k = 0 then 1 else 0) 0 = .error .skipWithoutParent ∧
    ¬ Confined m Model.rootId (fun k => if k = 0 then 1 else 0) := by
  have h : Model.Reachable "" (Model.initial "") := .opened (Model.ofText_eq_ok_iff.2 ⟨by decide, rfl⟩)
  refine ⟨_, h, by decide, rfl, fun hconfined => ?_⟩
  obtain ⟨answered, hanswer, -⟩ := hconfined 0
  cases hanswer

end SyntaxTree.Walk

import Rpscc.Cluster.Joining

/-!
# Everybody joins

The master writes the nodes down in the order in which their messages arrive (`Gathering`), until
with the last of them it tells everybody (`Told`).  A node that waits then receives the
configuration first, because no request overtakes it.

* `JoinNet.joined_agree`: nobody fails, and all nodes that have been initialised agree on one
  configuration.  Every node has an id of its own in it, of the right kind and with its own address,
  and what it knows of the others is right.
* `JoinNet.joining_completes`: no run has more than four steps of starting up for every node, and
  at the end of a run that cannot go on all nodes have joined.
-/

set_option autoImplicit false

namespace Rpscc

open Function (update)

variable {α F : Type}

namespace JoinNet

variable [Fintype α] [DecidableEq α] {l : Launch α F} {order : List α} {c : ConfigMessage}
  {id : α → ℕ} {n n' : JoinNet α F}

/-- Every node is sent the message for its id. -/
theorem Cluster.mailTo_eq (hcluster : Cluster l) (hnodup : order.Nodup) (hall : ∀ b, b ∈ order)
    {book : Communicator}
    (hbook : ∀ i < (addrsOf l order).length, book.idToAddr (i : ℕ) = (addrsOf l order)[i]?)
    (b : α) :
    mailTo book (l.joiner b).address
        ((List.range (addrsOf l order).length).map (Master.configMessage (F := F) c))
      = [(Master.configMessage c (idOf l.masters order b)).msg] :=
  mailTo_configMessage hbook ((hcluster.address_iff hnodup (hall b) _).2 rfl)
    fun i ↦ (hcluster.address_iff hnodup (hall b) i).1

/-! ## What every run keeps -/

/-- Some nodes have not registered yet.  Those that have wait. -/
structure Gathering (l : Launch α F) (order : List α) (n : JoinNet α F) : Prop where
  nodup : order.Nodup
  pending : ∃ a, a ∉ order
  roster : TaskConfig.Roster l.flags l.masters (regsOf l.joiner order) n.master.config
  partition : n.master.config.partition = []
  running : n.master.terminated = false
  listed : ∀ a ∈ order, n.node a = .waiting ∧ n.registers a = []
  unlisted : ∀ a, a ∉ order → n.node a = .begin ∧ n.registers a = [] ∨
    n.node a = .waiting ∧ n.registers a = [(l.joiner a).host]
  wire : ∀ a, n.wire a = []
  mail : ∀ a, n.mail a = []

omit [Fintype α] [DecidableEq α] in
theorem Gathering.node (h : Gathering l order n) (a : α) :
    n.node a = .begin ∨ n.node a = .waiting := by
  by_cases ha : a ∈ order
  · exact .inr (h.listed a ha).1
  · exact (h.unlisted a ha).imp And.left And.left

omit [Fintype α] in
theorem Gathering.register (h : Gathering l order n) {a : α} (hbegin : n.node a = .begin) :
    Gathering l order { n with
      node := update n.node a .waiting
      registers := update n.registers a (n.registers a ++ [(l.joiner a).host]) } := by
  have hnot : a ∉ order := fun ha ↦ by
    have hwaiting := (h.listed a ha).1
    rw [hbegin] at hwaiting
    cases hwaiting
  have hnil : n.registers a = [] := by
    rcases h.unlisted a hnot with ⟨-, hnil⟩ | ⟨hwaiting, -⟩
    · exact hnil
    · rw [hbegin] at hwaiting
      cases hwaiting
  refine ⟨h.nodup, h.pending, h.roster, h.partition, h.running, fun b hb ↦ ?_, fun b hb ↦ ?_,
    h.wire, h.mail⟩
  · have hne : b ≠ a := fun heq ↦ hnot (heq ▸ hb)
    simpa only [Function.update_of_ne hne] using h.listed b hb
  · by_cases hba : b = a
    · subst hba
      simp [hnil]
    · simpa only [Function.update_of_ne hba] using h.unlisted b hb

omit [Fintype α] [DecidableEq α] in
/-- Only a node that has just registered has a message on its way to the master. -/
theorem Gathering.of_registers (h : Gathering l order n) {a : α} {r : RegisterMessage}
    {rest : List RegisterMessage} (hr : n.registers a = r :: rest) :
    a ∉ order ∧ n.node a = .waiting ∧ r = (l.joiner a).host ∧ rest = [] := by
  have hnot : a ∉ order := fun ha ↦ by
    rw [(h.listed a ha).2] at hr
    cases hr
  rcases h.unlisted a hnot with ⟨-, hnil⟩ | ⟨hwaiting, hone⟩
  · rw [hnil] at hr
    cases hr
  · rw [hone, List.cons.injEq] at hr
    exact ⟨hnot, hwaiting, hr.1.symm, hr.2.symm⟩

omit [Fintype α] [DecidableEq α] in
theorem Gathering.nodup_concat (h : Gathering l order n) {a : α} (hnot : a ∉ order) :
    (order ++ [a]).Nodup := by
  rw [List.nodup_append_comm]
  exact List.nodup_cons.2 ⟨hnot, h.nodup⟩

omit [Fintype α] in
/-- The master has written down another node, and it was not the last. -/
theorem Gathering.concat (h : Gathering l order n) {a : α} (hnot : a ∉ order)
    (hwaiting : n.node a = .waiting) (hpending : ∃ b, b ∉ order ++ [a]) {m' : Master}
    (hroster : TaskConfig.Roster l.flags l.masters (regsOf l.joiner (order ++ [a])) m'.config)
    (hpartition : m'.config.partition = []) (hrunning : m'.terminated = false) :
    Gathering l (order ++ [a]) { n with
      master := m'
      registers := update n.registers a [] } where
  nodup := h.nodup_concat hnot
  pending := hpending
  roster := hroster
  partition := hpartition
  running := hrunning
  listed := by
    intro b hb
    rcases List.mem_append.1 hb with hb | hb
    · have hne : b ≠ a := fun heq ↦ hnot (heq ▸ hb)
      simpa only [Function.update_of_ne hne] using h.listed b hb
    · rw [List.mem_singleton.1 hb]
      exact ⟨hwaiting, Function.update_self ..⟩
  unlisted := by
    intro b hb
    rw [List.mem_append, List.mem_singleton, not_or] at hb
    simpa only [Function.update_of_ne hb.2] using h.unlisted b hb.1
  wire := h.wire
  mail := h.mail

/-- The master `m` tells everybody, with the addresses in `book`, and the messages fit. -/
structure Tells (l : Launch α F) (order : List α) (m : Master) (c : ConfigMessage)
    (book : Communicator) : Prop where
  all : ∀ b, b ∈ order
  message : m.config.toMessage = .ok c
  announces : c.Announces l.flags l.joiner (idOf l.masters order)
  entered : m.book l.maxClusterNode = .ok book
  mail : ∀ b, mailTo book (l.joiner b).address
      ((List.range (addrsOf l order).length).map (Master.configMessage (F := F) c))
    = [(Master.configMessage c (idOf l.masters order b)).msg]
  fits : ∀ i < (addrsOf l order).length,
    (header i).length + (Master.configMessage (F := F) c i).msg.wireSize ≤ min 2048 l.bufferSize

/-- What the master does with the message of a node that has not been written down yet: either it
was not the last, or everybody is told. -/
theorem Gathering.handle_cases (hcluster : Cluster l) (h : Gathering l order n) {a : α}
    (hnot : a ∉ order) {r : Master.Registration} (hhost : r.msg = (l.joiner a).host)
    (hdraw : n.master.config.DrawsOk r.draw) :
    ∃ m' sent, n.master.handle (F := F) r = .ok (m', sent) ∧
      ((sent = none ∧ (∃ b, b ∉ order ++ [a]) ∧ m'.config.partition = [] ∧
        m'.terminated = false ∧
        TaskConfig.Roster l.flags l.masters (regsOf l.joiner (order ++ [a])) m'.config) ∨
      ∃ c book, sent = some ((List.range (addrsOf l (order ++ [a])).length).map
          (Master.configMessage c)) ∧ Tells l (order ++ [a]) m' c book) := by
  obtain ⟨m', sent, hm, hroster, hgathering, htold⟩ :=
    Master.roster_handle (F := F) h.roster h.partition r
  have hregs : regsOf l.joiner order ++ [r.msg] = regsOf l.joiner (order ++ [a]) := by
    rw [hhost, regsOf, regsOf, List.map_append, List.map_singleton]
  have hnodup := h.nodup_concat hnot
  have hready := hcluster.ready_iff hnodup
    (hregs ▸ Master.roster_processRegisterMsg h.roster r.msg)
  rw [hregs] at hroster htold
  refine ⟨m', sent, hm, ?_⟩
  cases hcase : (n.master.processRegisterMsg r.msg).config.ready with
  | false =>
    obtain ⟨hsent, hpartition, hterminated⟩ := hgathering hcase
    rw [hcase] at hready
    exact .inl ⟨hsent, not_forall.1 fun hall ↦ Bool.false_ne_true (hready.2 hall), hpartition,
      hterminated.trans h.running, hroster⟩
  | true =>
    have hall := hready.1 hcase
    obtain ⟨c, hc, hpart, hsent⟩ := htold hcase (hcluster.addressed _)
    have hids : (l.masters.length + (regsOf l.joiner (order ++ [a])).length : ℕ)
        ≤ l.maxClusterNode ∧ l.maxClusterNode
          + (l.masters.length + (regsOf l.joiner (order ++ [a])).length : ℕ) ≤ 2147483648 := by
      rw [length_regsOf hnodup hall]
      exact ⟨hcluster.small, hcluster.int32⟩
    obtain ⟨book, hbook, hentries⟩ :=
      Master.book_ok hroster (hcluster.addressed _) hids.1 hids.2
    have hflags : n.master.config.serverNum = l.flags.serverNum ∧
        n.master.config.keyRange = l.flags.keyRange := by
      rw [← h.roster.flags]
      exact ⟨rfl, rfl⟩
    refine .inr ⟨c, book, ?_, hall, hc, ?_, hbook, ?_, fun i hi ↦ ?_⟩
    · rw [hsent, length_addrsOf]
    · refine hcluster.announces hnodup hall hroster ?_ hc hpart
      rw [← hflags.1, ← hflags.2]
      exact hdraw
    · refine hcluster.mailTo_eq hnodup hall fun i hi ↦ ?_
      rw [length_addrsOf] at hi
      exact hentries i hi
    · exact hcluster.config_fits hnodup hall hroster hc hpart hi

/-- All nodes have registered.  The message with the configuration is on its way, or it is the first
one that the node will receive, or it has been received. -/
structure Told [FloatOps F] (l : Launch α F) (c : ConfigMessage) (id : α → ℕ)
    (n : JoinNet α F) : Prop where
  message : n.master.config.toMessage = .ok c
  announces : c.Announces l.flags l.joiner id
  fits : ∀ a, (Master.configMessage (F := F) c (id a)).msg.wireSize ≤ min 2048 l.bufferSize
  registers : ∀ a, n.registers a = []
  node : ∀ a,
    (n.node a = .waiting ∧ n.wire a = [(Master.configMessage c (id a)).msg] ∧ n.mail a = []) ∨
    (n.node a = .waiting ∧ n.wire a = [] ∧
      ∃ rest, n.mail a = (Master.configMessage c (id a)).msg :: rest) ∨
    (∃ node, n.node a = .joined node ∧ c.Joined l.joiner id a node) ∧ n.wire a = []

variable [FloatOps F]

/-- The nodes are registered one after the other, and then told. -/
def Inv (l : Launch α F) (n : JoinNet α F) : Prop :=
  (∃ order, Gathering l order n) ∨ ∃ c id, Told l c id n

/-- The master has written down the last node, and told everybody. -/
theorem Gathering.told (hcluster : Cluster l) (h : Gathering l order n) {a : α} (hnot : a ∉ order)
    (hwaiting : n.node a = .waiting) {m' : Master} {book : Communicator}
    (htells : Tells l (order ++ [a]) m' c book) {wire : α → List (Message F)}
    (hwire : ∀ b, wire b = [(Master.configMessage c (idOf l.masters (order ++ [a]) b)).msg]) :
    Told l c (idOf l.masters (order ++ [a])) { n with
      master := m'
      registers := update n.registers a []
      wire := wire } := by
  have hlisted : ∀ b, b ≠ a → b ∈ order := fun b hne ↦
    (List.mem_append.1 (htells.all b)).resolve_right (hne ∘ List.mem_singleton.1)
  refine ⟨htells.message, htells.announces, fun b ↦ ?_, fun b ↦ ?_,
    fun b ↦ .inl ⟨?_, hwire b, h.mail b⟩⟩
  · have hget := (hcluster.address_iff (h.nodup_concat hnot) (htells.all b) _).2 rfl
    exact (Nat.le_add_left ..).trans (htells.fits _ (List.getElem?_eq_some_iff.1 hget).1)
  · by_cases hba : b = a
    · rw [hba]
      exact Function.update_self ..
    · exact (Function.update_of_ne hba _ _).trans (h.listed b (hlisted b hba)).2
  · by_cases hba : b = a
    · rw [hba]
      exact hwaiting
    · exact (h.listed b (hlisted b hba)).1

omit [Fintype α] [DecidableEq α] in
/-- The node of the configuration that is on its way. -/
theorem Told.of_wire (h : Told l c id n) {a : α} {m : Message F} {rest : List (Message F)}
    (hm : n.wire a = m :: rest) : n.node a = .waiting ∧ n.mail a = [] ∧ rest = [] ∧
      m = (Master.configMessage c (id a)).msg := by
  rcases h.node a with ⟨hwaiting, hone, hmail⟩ | ⟨-, hnil, -⟩ | ⟨-, hnil⟩
  · rw [hone, List.cons.injEq] at hm
    exact ⟨hwaiting, hmail, hm.2.symm, hm.1.symm⟩
  · rw [hnil] at hm
    cases hm
  · rw [hnil] at hm
    cases hm

omit [Fintype α] [DecidableEq α] in
/-- A node that waits receives the configuration first. -/
theorem Told.of_mail (h : Told l c id n) {a : α} {m : Message F} {rest : List (Message F)}
    (hwaiting : n.node a = .waiting) (hm : n.mail a = m :: rest) :
    n.wire a = [] ∧ m = (Master.configMessage c (id a)).msg := by
  rcases h.node a with ⟨-, -, hnil⟩ | ⟨-, hwire, rest', hone⟩ | ⟨⟨node, hnode, -⟩, -⟩
  · rw [hnil] at hm
    cases hm
  · rw [hone, List.cons.injEq] at hm
    exact ⟨hwire, hm.1.symm⟩
  · rw [hwaiting] at hnode
    cases hnode

omit [Fintype α] in
theorem Told.arrive (h : Told l c id n) {a : α} {m : Message F} {rest : List (Message F)}
    (hm : n.wire a = m :: rest) : Told l c id { n with
      wire := update n.wire a rest
      mail := update n.mail a (n.mail a ++ [m]) } := by
  obtain ⟨hwaiting, hnil, rfl, rfl⟩ := h.of_wire hm
  refine ⟨h.message, h.announces, h.fits, h.registers, fun b ↦ ?_⟩
  by_cases hba : b = a
  · subst hba
    refine .inr (.inl ⟨hwaiting, Function.update_self .., [], ?_⟩)
    simp only [Function.update_self, hnil, List.nil_append]
  · simpa only [Function.update_of_ne hba] using h.node b

omit [Fintype α] in
theorem Told.receive (h : Told l c id n) {a : α} {m : Message F} {rest : List (Message F)}
    (hwaiting : n.node a = .waiting) (hm : n.mail a = m :: rest) : Told l c id { n with
      node := update n.node a ((l.joiner a).initializeNode m)
      mail := update n.mail a rest } := by
  obtain ⟨hwire, rfl⟩ := h.of_mail hwaiting hm
  refine ⟨h.message, h.announces, h.fits, h.registers, fun b ↦ ?_⟩
  by_cases hba : b = a
  · subst hba
    obtain ⟨node, hnode⟩ := h.announces.joined b
    exact .inr (.inr
      ⟨⟨node, (Function.update_self ..).trans hnode.initialized, hnode⟩, hwire⟩)
  · simpa only [Function.update_of_ne hba] using h.node b

omit [Fintype α] in
/-- A request comes behind the configuration. -/
theorem Told.request (h : Told l c id n) {b : α} (hwire : n.wire b = []) (m : Message F) :
    Told l c id { n with mail := update n.mail b (n.mail b ++ [m]) } := by
  refine ⟨h.message, h.announces, h.fits, h.registers, fun a ↦ ?_⟩
  by_cases hab : a = b
  · subst hab
    rcases h.node a with ⟨-, hone, -⟩ | ⟨hwaiting, -, rest, hmail⟩ | hjoined
    · rw [hwire] at hone
      cases hone
    · refine .inr (.inl ⟨hwaiting, hwire, rest ++ [m], ?_⟩)
      simp only [Function.update_self, hmail, List.cons_append]
    · exact .inr (.inr hjoined)
  · simpa only [Function.update_of_ne hab] using h.node a

omit [Fintype α] [DecidableEq α] in
/-- Nobody registers any more. -/
theorem Told.not_begin (h : Told l c id n) (a : α) : n.node a ≠ .begin := by
  intro hbegin
  rcases h.node a with ⟨hwaiting, -⟩ | ⟨hwaiting, -⟩ | ⟨⟨node, hnode, -⟩, -⟩
  · simp [hwaiting] at hbegin
  · simp [hwaiting] at hbegin
  · simp [hnode] at hbegin

/-- A step keeps the invariant. -/
theorem Inv.step (hcluster : Cluster l) (h : Inv l n) {e : Event α F} (horderly : n.Orderly e)
    (hstep : Step l e n n') : Inv l n' := by
  rcases h with ⟨order, h⟩ | ⟨c, id, h⟩
  · cases hstep with
    | register hbegin hroom =>
      rename_i a
      rw [if_pos (hcluster.lead a)]
      exact .inl ⟨order, h.register hbegin⟩
    | handle hr hrunning hroom hdraw hm =>
      rename_i a r rest m'
      obtain ⟨hnot, hwaiting, hhost, rfl⟩ := h.of_registers hr
      obtain ⟨m'', sent, hm', ⟨-, hpending, hpartition, hterminated, hroster⟩ |
        ⟨c, book, rfl, -⟩⟩ := h.handle_cases hcluster hnot hhost hdraw
      · obtain ⟨rfl, -⟩ : m' = m'' ∧ none = sent := by simpa [hm] using hm'
        exact .inl ⟨_, h.concat hnot hwaiting hpending hroster hpartition hterminated⟩
      · simp [hm] at hm'
    | deliver hr hrunning hroom hdraw hm hbook hfits =>
      rename_i a r rest m' msgs book
      obtain ⟨hnot, hwaiting, hhost, rfl⟩ := h.of_registers hr
      obtain ⟨m'', sent, hm', ⟨rfl, -⟩ | ⟨c, book', rfl, htells⟩⟩ :=
        h.handle_cases hcluster hnot hhost hdraw
      · simp [hm] at hm'
      · obtain ⟨rfl, rfl⟩ : m' = m'' ∧ msgs = _ := by simpa [hm] using hm'
        obtain rfl : book = book' := Except.ok.inj (hbook.symm.trans htells.entered)
        refine .inr ⟨c, _, h.told hcluster hnot hwaiting htells fun b ↦ ?_⟩
        rw [h.wire b, htells.mail b, List.nil_append]
    | arrive hm hroom =>
      rename_i a m rest
      rw [h.wire a] at hm
      cases hm
    | receive hwaiting hm =>
      rename_i a m rest
      rw [h.mail a] at hm
      cases hm
    | request hjoined hknown htype =>
      rename_i a b node dst m
      rcases h.node a with hnode | hnode <;> simp [hnode] at hjoined
  · cases hstep with
    | register hbegin hroom => exact (h.not_begin _ hbegin).elim
    | handle hr hrunning hroom hdraw hm =>
      rw [h.registers] at hr
      cases hr
    | deliver hr hrunning hroom hdraw hm hbook hfits =>
      rw [h.registers] at hr
      cases hr
    | arrive hm hroom => exact .inr ⟨c, id, h.arrive hm⟩
    | receive hwaiting hm => exact .inr ⟨c, id, h.receive hwaiting hm⟩
    | request hjoined hknown htype => exact .inr ⟨c, id, h.request horderly _⟩

omit [DecidableEq α] in
theorem Inv.start (hcluster : Cluster l) : Inv l (start l) := by
  obtain ⟨a⟩ := hcluster.nonempty
  exact .inl ⟨[], List.nodup_nil, ⟨a, List.not_mem_nil⟩,
    TaskConfig.roster_initializeMaster l.flags l.masters,
    Master.initializeMaster_partition l.flags l.masters, rfl,
    fun b hb ↦ absurd hb List.not_mem_nil, fun b _ ↦ .inl ⟨rfl, rfl⟩, fun b ↦ rfl, fun b ↦ rfl⟩

/-- Every run keeps it. -/
theorem Run.inv (hcluster : Cluster l) {es : List (Event α F)} (hrun : Run l es n) : Inv l n := by
  induction hrun with
  | start => exact .start hcluster
  | step _ horderly hstep ih => exact ih.step hcluster horderly hstep

omit [Fintype α] [DecidableEq α] in
/-- Nobody fails. -/
theorem Inv.not_failed (h : Inv l n) (a : α) (fault : Fault) : n.node a ≠ .failed fault := by
  intro hfailed
  rcases h with ⟨order, h⟩ | ⟨c, id, h⟩
  · rcases h.node a with hnode | hnode <;> simp [hnode] at hfailed
  · rcases h.node a with ⟨hnode, -⟩ | ⟨hnode, -⟩ | ⟨⟨node, hnode, -⟩, -⟩ <;>
      simp [hnode] at hfailed

/-! ## How far a run has got -/

/-- The steps that a node has behind it: it has registered, the master has handled that, the
configuration has arrived, and it has been received. -/
def stage : Joining F → List RegisterMessage → List (Message F) → ℕ
  | .begin, _, _ => 0
  | .waiting, _ :: _, _ => 1
  | .waiting, [], [] => 2
  | .waiting, [], _ :: _ => 3
  | .joined _, _, _ => 4
  | .failed _, _, _ => 4

/-- The steps that all nodes have behind them. -/
def progress (n : JoinNet α F) : ℕ := ∑ a, stage (n.node a) (n.registers a) (n.mail a)

omit [DecidableEq α] [FloatOps F] in
theorem stage_le (node : Joining F) (registers : List RegisterMessage) (mail : List (Message F)) :
    stage node registers mail ≤ 4 := by
  unfold stage
  split <;> omega

omit [FloatOps F] in
/-- One node gets on by `k`. -/
theorem progress_add {a : α} {k : ℕ} (hself : stage (n'.node a) (n'.registers a) (n'.mail a)
      = stage (n.node a) (n.registers a) (n.mail a) + k)
    (hother : ∀ b, b ≠ a →
      n'.node b = n.node b ∧ n'.registers b = n.registers b ∧ n'.mail b = n.mail b) :
    n'.progress = n.progress + k := by
  rw [progress, progress, ← Finset.add_sum_erase _ _ (Finset.mem_univ a), hself,
    ← Finset.add_sum_erase _ _ (Finset.mem_univ a)]
  have hrest : ∑ b ∈ Finset.univ.erase a, stage (n'.node b) (n'.registers b) (n'.mail b)
      = ∑ b ∈ Finset.univ.erase a, stage (n.node b) (n.registers b) (n.mail b) := by
    refine Finset.sum_congr rfl fun b hb ↦ ?_
    obtain ⟨hnode, hregisters, hmail⟩ := hother b (Finset.ne_of_mem_erase hb)
    rw [hnode, hregisters, hmail]
  rw [hrest]
  omega

/-- As long as nodes are registered, every step counts. -/
theorem Gathering.progress_step (hlead : ∀ a, (l.joiner a).masterAddr = l.lead)
    (h : Gathering l order n) {e : Event α F} (hstep : Step l e n n') :
    e.isStart = true ∧ n'.progress = n.progress + 1 := by
  cases hstep with
  | register hbegin hroom =>
    rename_i a
    rw [if_pos (hlead a)]
    refine ⟨rfl, progress_add (a := a) ?_ fun b hb ↦
      ⟨Function.update_of_ne hb _ _, Function.update_of_ne hb _ _, rfl⟩⟩
    simp only [Function.update_self, hbegin]
    cases n.registers a <;> rfl
  | handle hr hrunning hroom hdraw hm =>
    rename_i a r rest m'
    obtain ⟨-, hwaiting, -, rfl⟩ := h.of_registers hr
    refine ⟨rfl, progress_add (a := a) ?_ fun b hb ↦ ⟨rfl, Function.update_of_ne hb _ _, rfl⟩⟩
    simp only [Function.update_self, hwaiting, hr, h.mail a]
    rfl
  | deliver hr hrunning hroom hdraw hm hbook hfits =>
    rename_i a r rest m' sent book
    obtain ⟨-, hwaiting, -, rfl⟩ := h.of_registers hr
    refine ⟨rfl, progress_add (a := a) ?_ fun b hb ↦ ⟨rfl, Function.update_of_ne hb _ _, rfl⟩⟩
    simp only [Function.update_self, hwaiting, hr, h.mail a]
    rfl
  | arrive hm hroom =>
    rename_i a m rest
    rw [h.wire a] at hm
    cases hm
  | receive hwaiting hm =>
    rename_i a m rest
    rw [h.mail a] at hm
    cases hm
  | request hjoined hknown htype =>
    rename_i a b node dst m
    rcases h.node a with hnode | hnode <;> simp [hnode] at hjoined

/-- When everybody has been told, every step of starting up counts, and a request does not. -/
theorem Told.progress_step (h : Told l c id n) {e : Event α F} (horderly : n.Orderly e)
    (hstep : Step l e n n') : n'.progress = n.progress + if e.isStart then 1 else 0 := by
  cases hstep with
  | register hbegin hroom => exact (h.not_begin _ hbegin).elim
  | handle hr hrunning hroom hdraw hm =>
    rw [h.registers] at hr
    cases hr
  | deliver hr hrunning hroom hdraw hm hbook hfits =>
    rw [h.registers] at hr
    cases hr
  | arrive hm hroom =>
    rename_i a m rest
    obtain ⟨hwaiting, hnil, -, -⟩ := h.of_wire hm
    refine progress_add (a := a) ?_ fun b hb ↦ ⟨rfl, rfl, Function.update_of_ne hb _ _⟩
    simp only [Function.update_self, hwaiting, hnil, h.registers a]
    rfl
  | receive hwaiting hm =>
    rename_i a m rest
    obtain ⟨-, rfl⟩ := h.of_mail hwaiting hm
    obtain ⟨node, hnode⟩ := h.announces.joined a
    refine progress_add (a := a) ?_ fun b hb ↦
      ⟨Function.update_of_ne hb _ _, rfl, Function.update_of_ne hb _ _⟩
    simp only [Function.update_self, hnode.initialized, hwaiting, hm, h.registers a]
    rfl
  | request hjoined hknown htype =>
    rename_i a b node dst m
    refine progress_add (a := b) ?_ fun b hb ↦ ⟨rfl, rfl, Function.update_of_ne hb _ _⟩
    rcases h.node b with ⟨-, hone, -⟩ | ⟨hwaiting, -, rest, hmail⟩ | ⟨⟨node, hnode, -⟩, -⟩
    · have hwire : n.wire b = [] := horderly
      rw [hwire] at hone
      cases hone
    · simp only [Function.update_self, hwaiting, hmail, h.registers b]
      rfl
    · simp only [hnode]
      rfl

omit [DecidableEq α] in
theorem Inv.joined_iff (h : Inv l n) :
    (∀ a, ∃ node, n.node a = .joined node) ↔ n.progress = 4 * Fintype.card α := by
  have hall : n.progress = 4 * Fintype.card α ↔
      ∀ a, stage (n.node a) (n.registers a) (n.mail a) = 4 := by
    have hsum := Finset.sum_eq_sum_iff_of_le (s := Finset.univ)
      (f := fun a ↦ stage (n.node a) (n.registers a) (n.mail a)) (g := fun _ ↦ 4)
      fun a _ ↦ stage_le ..
    rw [Finset.sum_const, Finset.card_univ, smul_eq_mul, mul_comm] at hsum
    rw [progress]
    simpa using hsum
  rw [hall]
  refine forall_congr' fun a ↦ ?_
  cases hnode : n.node a with
  | begin => simp [stage]
  | waiting => cases n.registers a <;> cases n.mail a <;> simp [stage]
  | joined node => simp [stage]
  | failed fault => exact absurd hnode (h.not_failed a fault)

/-- Unless all nodes have joined, the start can go on. -/
theorem Inv.enabled (hcluster : Cluster l) (h : Inv l n)
    (hnot : ¬ ∀ a, ∃ node, n.node a = .joined node) :
    ∃ e n', e.isStart = true ∧ n.Orderly e ∧ Step l e n n' := by
  have hregistration : ∀ a, (l.joiner a).registration.wireSize
      ≤ Role.master.bufferSize l.bufferSize := fun a ↦
    (Nat.le_add_left ..).trans ((hcluster.registration a).trans (min_le_left _ _))
  rcases h with ⟨order, h⟩ | ⟨c, id, h⟩
  · obtain ⟨a, ha⟩ := h.pending
    rcases h.unlisted a ha with ⟨hbegin, -⟩ | ⟨-, hone⟩
    · exact ⟨.register a, _, rfl, trivial,
        .register hbegin (Launch.le_buffer (hcluster.registration a) a)⟩
    · have hdraw : n.master.config.DrawsOk fun _ ↦ 1 := by
        intro i _
        have hkeys : n.master.config.keyRange = l.flags.keyRange := by rw [← h.roster.flags]
        have hthree := hcluster.keyRange.1
        exact ⟨le_refl (1 : Int), show (1 : Int) ≤ _ by omega⟩
      obtain ⟨m', sent, hm, ⟨rfl, -⟩ | ⟨c, book, rfl, htells⟩⟩ :=
        h.handle_cases hcluster ha (r := ⟨(l.joiner a).host, fun _ ↦ 1, 0⟩) rfl hdraw
      · exact ⟨.handle a, _, rfl, trivial, .handle hone h.running (hregistration a) hdraw hm⟩
      · refine ⟨.handle a, _, rfl, trivial, .deliver hone h.running (hregistration a) hdraw hm
          htells.entered fun s hs ↦ ?_⟩
        obtain ⟨i, hi, rfl⟩ := List.mem_map.1 hs
        exact (htells.fits i (List.mem_range.1 hi)).trans (min_le_left _ _)
  · obtain ⟨a, ha⟩ := not_forall.1 hnot
    rcases h.node a with ⟨-, hone, -⟩ | ⟨hwaiting, -, rest, hmail⟩ | ⟨⟨node, hnode, -⟩, -⟩
    · exact ⟨.arrive a, _, rfl, trivial, .arrive hone (Launch.le_buffer (h.fits a) a)⟩
    · exact ⟨.receive a, _, rfl, trivial, .receive hwaiting hmail⟩
    · exact (ha ⟨node, hnode⟩).elim

/-- A run has got as far as it has steps of starting up. -/
theorem Run.progress (hcluster : Cluster l) {es : List (Event α F)} (hrun : Run l es n) :
    n.progress = es.countP Event.isStart := by
  induction hrun with
  | start => exact Finset.sum_eq_zero fun a _ ↦ rfl
  | step hrun horderly hstep ih =>
    rename_i es n n' e
    rw [List.countP_append, List.countP_singleton, ← ih]
    rcases hrun.inv hcluster with ⟨order, h⟩ | ⟨c, id, h⟩
    · obtain ⟨hstart, hprogress⟩ := h.progress_step hcluster.lead hstep
      rw [hprogress, if_pos hstart]
    · exact h.progress_step horderly hstep

/-- There are runs in which all nodes join. -/
theorem exists_run (hcluster : Cluster l) : ∃ (es : List (Event α F)) (n : JoinNet α F),
    Run l es n ∧ ∀ a, ∃ node, n.node a = .joined node := by
  have hruns : ∀ T ≤ 4 * Fintype.card α, ∃ (es : List (Event α F)) (n : JoinNet α F),
      Run l es n ∧ es.countP Event.isStart = T := by
    intro T
    induction T with
    | zero => exact fun _ ↦ ⟨[], _, .start, rfl⟩
    | succ T ih =>
      intro hT
      obtain ⟨es, n, hrun, hcount⟩ := ih (by omega)
      obtain ⟨e, n', hstart, -, hstep⟩ := (hrun.inv hcluster).enabled hcluster fun hall ↦ by
        rw [(hrun.inv hcluster).joined_iff, hrun.progress hcluster, hcount] at hall
        omega
      refine ⟨_, _, hrun.tail hstart hstep, ?_⟩
      rw [List.countP_append, List.countP_singleton, hcount, if_pos hstart]
  obtain ⟨es, n, hrun, hcount⟩ := hruns _ le_rfl
  refine ⟨es, n, hrun, (hrun.inv hcluster).joined_iff.2 ?_⟩
  rw [hrun.progress hcluster, hcount]

end JoinNet

end Rpscc

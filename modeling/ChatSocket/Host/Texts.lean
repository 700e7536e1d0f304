/-
# `Host.Texts` — the server does not mind what is said

What the server makes of a chat text is to compare it with `disconnect` and to pass it
on.  So if all texts are replaced by others (`Rewording`), and the command stays the
command, every run is a run again, step by step, and what it leads to differs in the
texts alone: `play_reword`.  The same goes for `to_client_id`, which a message has and
nobody reads.

To replace every text by nothing is such a rewording.  So two runs that are alike but
for what is said (`SameButTexts`) are the same to everything but the texts, whatever
becomes of them: `texts_opaque`.
-/
import ChatSocket.Host.Relays

namespace ChatSocket

open Kit

/-- A replacement of texts that knows the command from the others. -/
structure Rewording where
  text : Buf maxMsgLen → Buf maxMsgLen
  clientId : UInt8 → UInt8
  disconnect_iff : ∀ b : Buf maxMsgLen,
    strcmp (text b).bytes disconnectCmd = 0 ↔ strcmp b.bytes disconnectCmd = 0

/-- Messages with something that a user has said. -/
def Msg.IsSaid (msg : Msg) : Prop := msg.msgType = .clientTxType ∨ msg.msgType = .clientRxType

instance (msg : Msg) : Decidable msg.IsSaid := inferInstanceAs (Decidable (_ ∨ _))

section
variable (w : Rewording)

def Msg.replace (msg : Msg) : Msg :=
  { msg with toClientId := w.clientId msg.toClientId, buffer := w.text msg.buffer }

def Msg.reword (msg : Msg) : Msg := if msg.IsSaid then msg.replace w else msg

/-- The bytes of the message with the other text. -/
def Chunk.reword (chunk : Chunk sizeofMsg) : Chunk sizeofMsg :=
  let msg := (recvInto (.zero _) chunk.bytes).msg
  if msg.IsSaid then (msg.replace w).chunk else chunk

def Poll.reword : Poll → Poll
  | .input (.bytes chunk) => .input (.bytes (chunk.reword w))
  | p => p

def Answer.reword : Answer → Answer
  | .poll p => .poll (p.reword w)
  | answer => answer

def Move.reword : Move → Move
  | .thread t answer => .thread t (answer.reword w)
  | m => m

def Act.reword : Act → Act
  | sent fd msg => sent fd (msg.reword w)
  | wrote write => wrote write

def Point.reword : Point → Point
  | tx msg => tx (msg.replace w)
  | tell connFd msg => tell connFd (msg.reword w)
  | reply msg => reply (msg.reword w)
  | p => p

def Stage.reword : Stage → Stage
  | serving p => serving (p.reword w)
  | s => s

def Thread.reword (th : Thread) : Thread := { th with stage := th.stage.reword w }

def Host.reword (h : Host) : Host :=
  { h with
    threads := fun t => (h.threads t).map (Thread.reword w)
    written := fun c => (h.written c).map (Msg.reword w) }

/-! ## What is received, sent and written -/

theorem reword_of_not_said {msg : Msg} (hmsg : ¬ msg.IsSaid) : msg.reword w = msg := if_neg hmsg

@[simp] theorem reword_withText_of {type : MsgType} (htx : type ≠ .clientTxType)
    (hrx : type ≠ .clientRxType) (text : List UInt8) :
    (Msg.withText type text).reword w = .withText type text :=
  if_neg fun h => h.elim htx hrx

@[simp] theorem reword_ofType {type : MsgType} (htx : type ≠ .clientTxType)
    (hrx : type ≠ .clientRxType) : (Msg.ofType type).reword w = .ofType type :=
  if_neg fun h => h.elim htx hrx

theorem msgType_reword (msg : Msg) : (msg.reword w).msgType = msg.msgType := by
  unfold Msg.reword
  split <;> rfl

/-- A message is received with the other text. -/
theorem msg_reword (chunk : Chunk sizeofMsg) :
    (recvInto (.zero _) (chunk.reword w).bytes).msg
      = (recvInto (.zero _) chunk.bytes).msg.reword w := by
  simp only [Chunk.reword, Msg.reword]
  split
  · exact msg_recvInto_image _ _ _
  · rfl

theorem replay_reword (acts : List Act) :
    ∀ r : Registry, replay r (acts.map (Act.reword w)) = replay r acts := by
  induction acts with
  | nil => exact fun _ => rfl
  | cons a acts ih =>
      intro r
      cases a with
      | sent fd msg => exact ih r
      | wrote write => exact ih _

theorem wrote_mem_reword {write : Write} {acts : List Act} :
    .wrote write ∈ acts.map (Act.reword w) ↔ .wrote write ∈ acts := by
  constructor
  · intro hmem
    obtain ⟨a, ha, he⟩ := List.mem_map.mp hmem
    cases a with
    | sent fd msg => cases he
    | wrote write' =>
        cases he
        exact ha
  · exact fun hmem => List.mem_map.mpr ⟨_, hmem, rfl⟩

theorem msgsOn_reword (conns : Int → Option Nat) (c : Nat) (acts : List Act) :
    Host.msgsOn conns c (acts.map (Act.reword w)) = (Host.msgsOn conns c acts).map (Msg.reword w) := by
  induction acts with
  | nil => rfl
  | cons a acts ih =>
      rw [List.map_cons, ← List.singleton_append, Host.msgsOn_append, ih,
        ← List.singleton_append (l := acts), Host.msgsOn_append, List.map_append]
      congr 1
      cases a with
      | wrote write => rfl
      | sent fd msg =>
          by_cases hfd : conns fd = some c <;> simp [Host.msgsOn, Act.reword, hfd]

/-! ## A step of a handler -/

section
variable (p : Point) (fd : Int) (r : Registry)

theorem acts_reword : (p.reword w).acts fd r = (p.acts fd r).map (Act.reword w) := by
  cases p with
  | tell connFd msg | reply msg => rfl
  | setName msg | accept =>
      simp only [Point.reword, Point.acts]
      split <;> rfl
  | ask name connFd asker =>
      simp [Point.reword, Point.acts, Act.reword]
  | ready connFd my conn =>
      simp [Point.reword, Point.acts, Act.reword]
  | tellDeclined connFd my =>
      simp [Point.reword, Point.acts, Act.reword]
  | _ => rfl

theorem reword_answer (name : List UInt8) {type : MsgType} (htx : type ≠ .clientTxType)
    (hrx : type ≠ .clientRxType) : (Point.answer name type).reword w = Point.answer name type :=
  if_neg fun h => h.elim htx hrx

theorem next_reword : (p.reword w).next fd r = (p.next fd r).reword w := by
  cases p with
  | tx msg =>
      have hcmd := w.disconnect_iff msg.buffer
      simp only [Point.reword, Point.next, Msg.replace, hcmd]
      split
      · rfl
      split
      · rfl
      · simp [Msg.reword, Msg.IsSaid, Msg.replace]
  | tell connFd msg | reply msg => rfl
  | connect name =>
      simp only [Point.reword, Point.next]
      split
      · simp [reword_answer]
      split
      · simp [reword_answer]
      · split <;> simp [reword_answer]
  | setName msg =>
      simp only [Point.reword, Point.next]
      split
      · simp
      split
      · rfl
      · simp
  | accept =>
      simp only [Point.reword, Point.next]
      split
      · rfl
      split
      · simp
      split
      · rfl
      split
      · simp
      · rfl
  | claim name myName =>
      simp only [Point.reword, Point.next]
      split
      · simp [reword_answer]
      · rfl
  | checkConn connFd connName myName | checkMine connFd connName myName | decline =>
      simp only [Point.reword, Point.next]
      split <;> rfl
  | ask name connFd asker => simp [Point.reword, Point.next, reword_answer]
  | copyRefused connName => simp [Point.reword, Point.next]
  | ready connFd my conn => simp [Point.reword, Point.next]
  | disconnect connFd => simp [Point.reword, Point.next]
  | _ => rfl

theorem locks_reword : (p.reword w).locks = p.locks := by
  cases p <;> rfl

theorem leavesHeld_reword : (p.reword w).leavesHeld fd r = p.leavesHeld fd r := by
  cases p <;> rfl

theorem start_reword (msg : Msg) : Point.start (msg.reword w) = (Point.start msg).reword w := by
  unfold Point.start
  rw [msgType_reword]
  cases ht : msg.msgType with
  | clientTxType => simp [Msg.reword, Msg.IsSaid, ht, Point.reword]
  | setNameReqType | connectToClient => simp [Msg.reword, Msg.IsSaid, ht, Point.reword]
  | _ => rfl

end

/-! ## A step of a thread -/

theorem rx_reword (msg : Msg) : Stage.rx (msg.reword w) = (Stage.rx msg).reword w := by
  unfold Stage.rx
  rw [msgType_reword]
  split
  · rfl
  · rw [start_reword]
    rfl

theorem listReply_reword (list : Buf maxMsgLen) : (listReply list).reword w = listReply list := by
  simp [listReply, Stage.reword, Point.reword, Msg.reword, Msg.IsSaid, Msg.ofType]

theorem listOn_reword (next : Option Nat) (list : Buf maxMsgLen) (listLen : Nat) :
    (listOn next list listLen).reword w = listOn next list listLen := by
  cases next with
  | none => exact listReply_reword w list
  | some b => rfl

theorem visit_reword (r : Registry) (a : Nat) (list : Buf maxMsgLen) (listLen : Nat) :
    (visit r a list listLen).reword w = visit r a list listLen := by
  unfold visit
  split
  · exact listReply_reword w list
  · split
    · exact listReply_reword w list
    · exact listOn_reword w _ _ _

theorem polled_reword (p : Poll) : Stage.polled (p.reword w) = (Stage.polled p).reword w := by
  match p with
  | .input (.bytes chunk) =>
      show Stage.rx (recvInto (.zero _) (chunk.reword w).bytes).msg = _
      rw [msg_reword, rx_reword]
      rfl
  | .error | .timeout | .noInput | .input .closed | .input .error => rfl

theorem quiet_reword (r : Registry) (terminate : Bool) (stage : Stage) (answer : Answer) :
    (stage.reword w).quiet r terminate (answer.reword w)
      = (stage.quiet r terminate answer).map (Stage.reword w) := by
  cases stage with
  | polling =>
      cases answer with
      | poll p => exact congrArg some (polled_reword w p)
      | _ => rfl
  | awaitingAck =>
      cases answer with
      | recv c =>
          simp only [Stage.reword, Answer.reword, Stage.quiet, Option.map_some]
          split <;> rfl
      | _ => rfl
  | serving p =>
      cases p with
      | done =>
          cases answer with
          | none =>
              simp only [Stage.reword, Point.reword, Answer.reword, Stage.quiet, Option.map_some]
              split <;> rfl
          | _ => rfl
      | _ => cases answer <;> rfl
  | listHead =>
      cases answer with
      | none => exact congrArg some (listOn_reword w _ _ _).symm
      | _ => rfl
  | listing a list listLen =>
      cases answer with
      | none => exact congrArg some (visit_reword w _ _ _ _).symm
      | _ => rfl
  | greeting =>
      cases answer with
      | sent ok => cases ok <;> rfl
      | _ => rfl
  | _ => cases answer <;> rfl

theorem handler?_reword (stage : Stage) (answer : Answer) :
    (stage.reword w).handler? (answer.reword w) = (stage.handler? answer).map (Point.reword w) := by
  cases stage with
  | serving p => cases p <;> cases answer <;> rfl
  | _ => rfl

/-! ## A step of the process -/

namespace Host

variable (h : Host)

theorem perform_reword (acts : List Act) (held : Bool) :
    (h.reword w).perform (acts.map (Act.reword w)) held = (h.perform acts held).reword w := by
  have hclose : closeRemoved h.registry (acts.map (Act.reword w)) h.conns
      = closeRemoved h.registry acts h.conns := by
    funext g
    simp only [closeRemoved, wrote_mem_reword]
  have hwritten : (fun c => (h.written c).map (Msg.reword w) ++
      msgsOn h.conns c (acts.map (Act.reword w)))
        = fun c => (h.written c ++ msgsOn h.conns c acts).map (Msg.reword w) := by
    funext c
    rw [msgsOn_reword, List.map_append]
  simp only [perform, reword, registry, replay_reword, Host.mk.injEq, and_true, true_and]
  exact ⟨hclose, hwritten⟩

theorem goto_reword (t : Nat) (th : Thread) (stage : Stage) :
    (h.reword w).goto t (th.reword w) (stage.reword w) = (h.goto t th stage).reword w := by
  have hthreads : Function.update (h.reword w).threads t
      (some { th.reword w with stage := stage.reword w })
        = fun t' => (Function.update h.threads t (some { th with stage := stage }) t').map
          (Thread.reword w) := by
    funext t'
    rcases eq_or_ne t' t with rfl | hne
    · rw [Function.update_self, Function.update_self]
      rfl
    · rw [Function.update_of_ne hne, Function.update_of_ne hne]
      rfl
  simp only [goto, reword, Host.mk.injEq, and_true, true_and] at hthreads ⊢
  exact hthreads

/-- What a step leads to, with the other texts. -/
def rewordStep (q : Host × List Act) : Host × List Act :=
  (q.1.reword w, q.2.map (Act.reword w))

theorem registerActs_reword (r : Registry) (fd : Int) (ok : Bool) :
    (registerActs r fd ok).map (Act.reword w) = registerActs r fd ok := by
  unfold registerActs
  split <;> simp [Act.reword]

theorem closedActs_reword (r : Registry) (fd : Int) :
    (closedActs r fd).map (Act.reword w) = closedActs r fd := by
  simp only [closedActs]
  split <;> simp [Act.reword]

/-- A step outside of the three that are not a handler's. -/
theorem elseStep_reword (t : Nat) (th : Thread) (answer : Answer) :
    (match (th.stage.reword w).handler? (answer.reword w) with
      | some p =>
          if p.locks && h.server.mutexHeld then none
          else
            let acts := p.acts th.fd h.registry
            let held' := if p.locks then p.leavesHeld th.fd h.registry else h.server.mutexHeld
            some (((h.reword w).perform acts held').goto t (th.reword w)
              (.serving (p.next th.fd h.registry)), acts)
      | none =>
          ((th.stage.reword w).quiet h.registry h.terminate (answer.reword w)).map fun stage' =>
            ((h.reword w).goto t (th.reword w) stage', []))
      = (match th.stage.handler? answer with
          | some p =>
              if p.locks && h.server.mutexHeld then none
              else
                let acts := p.acts th.fd h.registry
                let held' := if p.locks then p.leavesHeld th.fd h.registry else h.server.mutexHeld
                some ((h.perform acts held').goto t th (.serving (p.next th.fd h.registry)), acts)
          | none => (th.stage.quiet h.registry h.terminate answer).map fun stage' =>
              (h.goto t th stage', [])).map (rewordStep w) := by
  rw [handler?_reword, quiet_reword]
  cases th.stage.handler? answer with
  | some p =>
      simp only [Option.map_some, locks_reword, acts_reword, leavesHeld_reword, next_reword,
        perform_reword]
      split
      · rfl
      · rw [Option.map_some, rewordStep]
        exact congrArg (fun h' => some (h', _)) (goto_reword w _ t th (.serving _))
  | none =>
      simp only [Option.map_none, Option.map_map]
      cases th.stage.quiet h.registry h.terminate answer with
      | none => rfl
      | some stage => exact congrArg (fun h' => some (h', _)) (goto_reword w h t th stage)

theorem actStep_reword {acts : List Act} (hacts : acts.map (Act.reword w) = acts) (held : Bool)
    (t : Nat) (th : Thread) {stage : Stage} (hstage : stage.reword w = stage) :
    some (((h.reword w).perform acts held).goto t (th.reword w) stage, acts)
      = (some ((h.perform acts held).goto t th stage, acts)).map (rewordStep w) := by
  have hgoto := goto_reword w (h.perform acts held) t th stage
  have hp := perform_reword w h acts held
  rw [hacts] at hp
  rw [hstage, ← hp] at hgoto
  rw [Option.map_some, rewordStep, hacts, hgoto]

theorem threadStep_reword (t : Nat) (th : Thread) (answer : Answer) :
    (h.reword w).threadStep t (th.reword w) (answer.reword w)
      = (h.threadStep t th answer).map (rewordStep w) := by
  have helse := elseStep_reword w h t th answer
  obtain ⟨fd, stage⟩ := th
  cases stage with
  | starting =>
      cases answer with
      | malloc ok =>
          show (if h.server.mutexHeld = true then none else _)
            = Option.map _ (if h.server.mutexHeld = true then none else _)
          split
          · rfl
          · refine actStep_reword w h (registerActs_reword w _ _ _) false t ⟨fd, .starting⟩ ?_
            split <;> rfl
      | _ => exact helse
  | greeting =>
      cases answer with
      | sent ok =>
          cases ok with
          | false => exact helse
          | true =>
              refine actStep_reword w h ?_ h.server.mutexHeld t ⟨fd, .greeting⟩ rfl
              simp [Act.reword, connEstablishReq]
      | _ => exact helse
  | closing =>
      cases answer with
      | none =>
          show (if h.server.mutexHeld = true then none else _)
            = Option.map _ (if h.server.mutexHeld = true then none else _)
          split
          · rfl
          · exact actStep_reword w h (closedActs_reword w _ _) false t ⟨fd, .closing⟩ rfl
      | _ => exact helse
  | _ => exact helse

theorem loopStep_reword (mallocOk createOk : Bool) :
    (h.reword w).loopStep mallocOk createOk
      = (h.loopStep mallocOk createOk).map (rewordStep w) := by
  unfold loopStep
  rw [show (h.reword w).loop = h.loop from rfl]
  cases h.loop with
  | waiting | accepting | failed | freed => rfl
  | accepted fd =>
      show (if h.server.mutexHeld = true then none else _) = Option.map _ (if _ then none else _)
      split <;> rfl
  | counted fd count =>
      show (if count < maxClient then _ else _) = Option.map _ (if _ then _ else _)
      split
      · cases mallocOk with
        | false => rfl
        | true =>
            cases createOk with
            | false => rfl
            | true =>
                show (h.conns fd).map _ = ((h.conns fd).map _).map _
                cases h.conns fd with
                | none => rfl
                | some t =>
                    refine congrArg (fun h' => some (h', [])) ?_
                    exact goto_reword w (h.loopAt .waiting) t ⟨fd, .starting⟩ .starting
      · have hacts : [Act.sent fd (.ofType .maxClientReached)].map (Act.reword w)
            = [.sent fd (.ofType .maxClientReached)] := by simp [Act.reword]
        have hp := perform_reword w h [.sent fd (.ofType .maxClientReached)] h.server.mutexHeld
        rw [hacts] at hp
        refine congrArg some (Prod.ext ?_ hacts.symm)
        exact congrArg (fun h' => h'.loopAt .waiting) hp
  | joining node =>
      cases node with
      | none => rfl
      | some a =>
          dsimp only
          rw [show (h.reword w).registry = h.registry from rfl]
          cases look ClientNode.addr a h.registry.clientList with
          | none => rfl
          | some n =>
              show (h.conns n.fd).map _ = ((h.conns n.fd).map _).map _
              cases h.conns n.fd <;> rfl
  | joinWait a t =>
      have hexited : ((h.reword w).threads t).map Thread.stage = some .exited ↔
          (h.threads t).map Thread.stage = some .exited := by
        show ((h.threads t).map (Thread.reword w)).map Thread.stage = some .exited ↔ _
        cases h.threads t with
        | none => exact Iff.rfl
        | some th =>
            obtain ⟨fd, stage⟩ := th
            cases stage <;> simp [Thread.reword, Stage.reword]
      show (if _ then _ else none) = Option.map _ (if _ then _ else none)
      rw [if_congr hexited rfl rfl]
      split <;> rfl
  | freeing =>
      dsimp only
      rw [show (h.reword w).registry = h.registry from rfl]
      cases h.registry.clientList <;> rfl

end Host

theorem hostStep_reword (h : Host) (m : Move) :
    hostStep (h.reword w) (m.reword w) = (hostStep h m).map (Host.rewordStep w) := by
  cases m with
  | accepts fd =>
      show (if h.loop = .accepting ∧ 0 ≤ fd ∧ fd < 2 ^ 31 ∧ h.conns fd = none then _ else none)
        = Option.map _ (if _ then _ else none)
      split <;> rfl
  | acceptFails interrupted =>
      show (if h.loop = .accepting then _ else none) = Option.map _ (if _ then _ else none)
      split <;> rfl
  | acceptLoop mallocOk createOk => exact h.loopStep_reword w mallocOk createOk
  | thread t answer =>
      show Option.bind ((h.threads t).map (Thread.reword w)) _ = _
      cases ht : h.threads t with
      | none => simp [hostStep, ht]
      | some th =>
          simp only [hostStep, ht, Option.map_some, Option.bind_some]
          exact h.threadStep_reword w t th answer
  | sigint => rfl

/-- A run with other texts leads to where it would have led, with the other texts. -/
theorem play_reword (ms : List Move) :
    play hostStep .boot (ms.map (Move.reword w))
      = (play hostStep .boot ms).map (Host.reword w) :=
  play_map (f := Host.reword w) (fun _ => rfl) (hostStep_reword w) ms .boot

end

/-! ## Two runs -/

/-- Every text becomes the empty one, and the command stays. -/
def Rewording.blank : Rewording where
  text b := if strcmp b.bytes disconnectCmd = 0 then (Buf.zero _).strcpy disconnectCmd else .zero _
  clientId _ := 0
  disconnect_iff := by
    intro b
    split
    · next hcmd => exact iff_of_true (by decide) hcmd
    · next hcmd => exact iff_of_false (by decide) hcmd

/-- The message that a thread takes `chunk` for. -/
def Chunk.msg (chunk : Chunk sizeofMsg) : Msg := (recvInto (.zero _) chunk.bytes).msg

/-- The same move, or the same thread is told another text. -/
inductive SameButText : Move → Move → Prop where
  | same (m : Move) : SameButText m m
  | said {t : Nat} {chunk chunk' : Chunk sizeofMsg} :
      chunk.msg.msgType = .clientTxType → chunk'.msg.msgType = .clientTxType →
      (strcmp chunk.msg.buffer.bytes disconnectCmd = 0 ↔
        strcmp chunk'.msg.buffer.bytes disconnectCmd = 0) →
      SameButText (.thread t (.poll (.input (.bytes chunk))))
        (.thread t (.poll (.input (.bytes chunk'))))

/-- Two processes that differ in what has been said, and in nothing else. -/
structure Host.AlikeButTexts (h h' : Host) : Prop where
  server : h'.server = h.server
  conns : h'.conns = h.conns
  accepts : h'.accepts = h.accepts
  loop : h'.loop = h.loop
  terminate : h'.terminate = h.terminate
  threads : ∀ t, (h'.threads t).map (Thread.reword .blank) = (h.threads t).map (Thread.reword .blank)
  written : ∀ c, List.Forall₂ (fun m m' => m'.msgType = m.msgType ∧ (¬ m.IsSaid → m' = m))
    (h.written c) (h'.written c)

theorem reword_blank_of_same {m m' : Move} (hm : SameButText m m') :
    m.reword .blank = m'.reword .blank := by
  cases hm with
  | same => rfl
  | @said t chunk chunk' htype htype' hcmd =>
      have hreplace : chunk.msg.replace .blank = chunk'.msg.replace .blank := by
        simp only [Msg.replace, Rewording.blank, htype, htype', hcmd]
      have hchunk : chunk.reword .blank = chunk'.reword .blank := by
        have hsaid : chunk.msg.IsSaid := Or.inl htype
        have hsaid' : chunk'.msg.IsSaid := Or.inl htype'
        exact (if_pos hsaid).trans ((congrArg Msg.chunk hreplace).trans (if_pos hsaid').symm)
      exact congrArg (fun chunk => Move.thread t (.poll (.input (.bytes chunk)))) hchunk

theorem same_of_reword_blank {msg msg' : Msg} (h : msg.reword .blank = msg'.reword .blank) :
    msg'.msgType = msg.msgType ∧ (¬ msg.IsSaid → msg' = msg) := by
  have htype : msg'.msgType = msg.msgType := by
    rw [← msgType_reword .blank msg, h, msgType_reword]
  refine ⟨htype, fun hmsg => ?_⟩
  have hmsg' : ¬ msg'.IsSaid := by
    rw [Msg.IsSaid, htype]
    exact hmsg
  rw [reword_of_not_said _ hmsg, reword_of_not_said _ hmsg'] at h
  exact h.symm

theorem Host.alike_of_reword_blank {h h' : Host} (hsame : h.reword .blank = h'.reword .blank) :
    h.AlikeButTexts h' where
  server := (congrArg Host.server hsame).symm
  conns := (congrArg Host.conns hsame).symm
  accepts := (congrArg Host.accepts hsame).symm
  loop := (congrArg Host.loop hsame).symm
  terminate := (congrArg Host.terminate hsame).symm
  threads t := (congrFun (congrArg Host.threads hsame) t).symm
  written := by
    intro c
    have hwritten : (h.written c).map (Msg.reword .blank) = (h'.written c).map (Msg.reword .blank) :=
      congrFun (congrArg Host.written hsame) c
    rw [← List.forall₂_eq_eq_eq, List.forall₂_map_left_iff, List.forall₂_map_right_iff] at hwritten
    exact hwritten.imp fun _ _ => same_of_reword_blank

/-- Where one text is said in place of another, and `disconnect` in place of itself, the server does
the same: the same registry, the same links, the same answers to everyone, whatever was said. -/
theorem texts_opaque {ms ms' : List Move} (hsame : List.Forall₂ SameButText ms ms') {h : Host}
    (hplay : play hostStep .boot ms = some h) :
    ∃ h', play hostStep .boot ms' = some h' ∧ h.AlikeButTexts h' := by
  have hmoves : ms.map (Move.reword .blank) = ms'.map (Move.reword .blank) := by
    rw [← List.forall₂_eq_eq_eq, List.forall₂_map_left_iff, List.forall₂_map_right_iff]
    exact hsame.imp fun _ _ => reword_blank_of_same
  have hblank : (play hostStep .boot ms').map (Host.reword .blank) = some (h.reword .blank) := by
    rw [← play_reword, ← hmoves, play_reword, hplay]
    rfl
  obtain ⟨h', hplay', hh'⟩ := Option.map_eq_some_iff.mp hblank
  exact ⟨h', hplay', Host.alike_of_reword_blank hh'.symm⟩

/-- 4 and 5 begin to chat, and 4 says something. -/
@[irreducible] def saidTo5 (text : String) : List Move :=
  (arrives 0 4 ++ arrives 1 5 ++ [tells 0 (asksFor 5)] ++ List.replicate 7 (go 0) ++
    [tells 1 (.ofType .clientAcceptConnection)] ++ List.replicate 9 (go 1)) ++
    ([tells 0 (.withText .clientTxType (ascii text))] ++ [go 0, go 0])

theorem hi_is_opaque :
    ∃ h', play hostStep .boot (saidTo5 "bye") = some h' ∧
      (afterMoves (saidTo5 "hi")).AlikeButTexts h' := by
  have hrefl : ∀ ms : List Move, List.Forall₂ SameButText ms ms :=
    fun ms => List.forall₂_same.mpr fun m _ => .same m
  have hsaid : SameButText (tells 0 (.withText .clientTxType (ascii "hi")))
      (tells 0 (.withText .clientTxType (ascii "bye"))) :=
    .said (by decide +kernel) (by decide +kernel) (by decide +kernel)
  have hsame : List.Forall₂ SameButText (saidTo5 "hi") (saidTo5 "bye") := by
    unfold saidTo5
    exact List.rel_append (hrefl _) (List.rel_append (.cons hsaid .nil) (hrefl _))
  exact texts_opaque hsame (play_final (by decide +kernel))

end ChatSocket

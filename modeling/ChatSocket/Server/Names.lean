/-
# `Server.Names` — does a name identify its client?

`names` forgets everything of the registry but which name is stored under which
descriptor.  An event changes it at one descriptor at most: a registration
stores the generated name, a rename that passes the check stores the first 63
characters of what was sent, a close takes the name away.

The check of a rename compares all characters that were sent; the registration
has none.  `Event.KeepsNames` is what both would have to ask.
-/
import ChatSocket.Server.Refines

namespace ChatSocket

open Kit Registry

variable {r : Registry}

/-- The names stored in `client_list` are pairwise different, and every registered client is
found by its name. -/
structure Registry.NamesIdentify (r : Registry) : Prop where
  distinct : (r.clientList.map fun n => n.data.name.str).Nodup
  found : ∀ fd, (r.node fd).isSome → r.getClientFdByName (r.nameOf fd) = fd

/-- What `strncpy` stores of a name. -/
def storedName (name : List UInt8) : List UInt8 := (cstr name).take (maxClientNameLen - 1)

/-- The events that keep names apart: a client that joins gets a name nobody stores, and a
rename that passes the check stores a name no other client stores. -/
def Event.KeepsNames (r : Registry) : Event → Prop
  | accepted fd ok =>
      r.Accepts ok → ∀ n ∈ r.clientList, n.data.name.str ≠ (tempClientName fd).str
  | rxMsg fd msg =>
      msg.msgType = .setNameReqType →
      r.checkClientWithSameNameExistOrNot msg.buffer.bytes = .nameNotExist →
      ∀ n ∈ r.clientList, n.fd ≠ fd → n.data.name.str ≠ storedName msg.buffer.bytes
  | closed _ => True

/-! ## The names of a registry -/

/-- The name stored under a descriptor. -/
def Registry.names (r : Registry) (fd : Int) : Option (List UInt8) :=
  (r.node fd).map fun n => n.data.name.str

theorem names_eq_some (h : r.Wf) {n : ClientNode} (hn : n ∈ r.clientList) :
    r.names n.fd = some n.data.name.str := by
  rw [names, h.node_of_mem hn]
  rfl

theorem names_ne_iff (h : r.Wf) {P : Int → Prop} {x : List UInt8} :
    (∀ fd, P fd → r.names fd ≠ some x) ↔ ∀ n ∈ r.clientList, P n.fd → n.data.name.str ≠ x := by
  constructor
  · intro hx n hn hP he
    exact hx n.fd hP (by rw [names_eq_some h hn, he])
  · intro hx fd hP he
    obtain ⟨n, hn, rfl⟩ := Option.map_eq_some_iff.mp he
    obtain rfl : n.fd = fd := look_key hn
    exact hx n (look_mem hn) hP rfl

/-- Names that are pairwise different lead back to their clients. -/
theorem namesIdentify_iff (h : r.Wf) : r.NamesIdentify ↔ OneToOne r.names := by
  have hnames : (r.clientList.map fun n => n.data.name.str).Nodup ↔ OneToOne r.names :=
    nodup_map_iff h.fds
  constructor
  · intro hid
    exact hnames.mp hid.distinct
  · intro hone
    have hnd := hnames.mpr hone
    refine ⟨hnd, fun fd hfd => ?_⟩
    obtain ⟨n, hn⟩ := Option.isSome_iff_exists.mp hfd
    have hlook : r.nodeByName (r.nameOf fd) = some n := by
      rw [nodeByName_eq, h.nameOf_eq hn, Buf.str, cstr_cstr]
      exact look_of_mem hnd (look_mem hn)
    have hfd : n.fd = fd := look_key hn
    rw [getClientFdByName_eq, hlook, ← hfd]
    rfl

/-! ## What an event does to the names -/

/-- The writes that name nobody and remove nobody. -/
def Write.Nameless : Write → Prop
  | status _ _ | toFd _ _ => True
  | name _ _ | remove _ | add _ _ => False

theorem names_modify {f : ClientData → ClientData} (hfd : ∀ d, (f d).fd = d.fd)
    (hname : ∀ d, (f d).name = d.name) (fd : Int) : (r.modify fd f).names = r.names := by
  funext g
  rw [names, names, r.node_modify hfd]
  split
  · next hg =>
      subst hg
      cases r.node g with
      | none => rfl
      | some n => exact congrArg (some ∘ Buf.str) (hname n.data)
  · rfl

theorem Write.Nameless.modifies : ∀ {w : Write}, w.Nameless → w.Modifies
  | .status _ _, _ | .toFd _ _, _ => trivial

theorem Write.Nameless.change_name : ∀ {w : Write}, w.Nameless → ∀ d, (w.change d).name = d.name
  | .status _ _, _, _ | .toFd _ _, _, _ => rfl

theorem names_nameless {w : Write} (hw : w.Nameless) (r : Registry) :
    (w.apply r).names = r.names :=
  Write.apply_of_modifies (P := fun r' => r'.names = r.names) rfl hw.modifies
    (names_modify w.change_fd hw.change_name)

theorem names_replay : ∀ (acts : List Act) (r : Registry),
    (∀ w, .wrote w ∈ acts → w.Nameless) → (replay r acts).names = r.names
  | [], _, _ => rfl
  | .sent _ _ :: acts, r, h => names_replay acts r fun w hw => h w (List.mem_cons_of_mem _ hw)
  | .wrote w :: acts, r, h => by
      rw [replay, names_replay acts _ fun w hw => h w (List.mem_cons_of_mem _ hw)]
      exact names_nameless (h w List.mem_cons_self) r

/-- Only a rename names. -/
theorem nameless_rx (h : r.Wf) {fd : Int} {msg : Msg} (he : (Event.rxMsg fd msg).Possible r)
    (hmsg : ¬ (msg.msgType = .setNameReqType ∧
      r.checkClientWithSameNameExistOrNot msg.buffer.bytes = .nameNotExist))
    {w : Write} (hw : .wrote w ∈ (Event.rxMsg fd msg).acts r) : w.Nameless := by
  cases does_of_mem h he hw with
  | renames ht hcheck => exact absurd ⟨ht, hcheck⟩ hmsg
  | refused => trivial
  | asks _ _ hmem | loses _ _ _ hmem | pairs _ _ _ _ hmem | quits _ _ _ hmem
  | declines _ _ _ hmem =>
      clear hw
      revert w
      simp [Write.Nameless]

theorem names_rename {fd : Int} (hfd : fd ≠ invalidFd) (hreg : (r.node fd).isSome)
    (name : List UInt8) :
    ((Write.name fd name).apply r).names = Function.update r.names fd (some (storedName name)) := by
  obtain ⟨n, hn⟩ := Option.isSome_iff_exists.mp hreg
  funext g
  rw [Write.apply_name r hfd, names, r.node_modify (fun _ => by rfl), Function.update_apply]
  split
  · next hg =>
      subst hg
      rw [hn]
      exact congrArg some (Buf.str_strncpy_put _ _)
  · rfl

theorem names_setName (h : r.Wf) {fd : Int} {msg : Msg} (he : (Event.rxMsg fd msg).Possible r)
    (ht : msg.msgType = .setNameReqType)
    (hcheck : r.checkClientWithSameNameExistOrNot msg.buffer.bytes = .nameNotExist) :
    (replay r ((Event.rxMsg fd msg).acts r)).names
      = Function.update r.names fd (some (storedName msg.buffer.bytes)) := by
  have hnames := names_rename (h.ne_invalidFd he) he msg.buffer.bytes
  simp only [Event.acts, rxActs, ht, setNameActs, hcheck, ne_eq, not_true, if_false]
  split <;> exact hnames

theorem names_accepted {fd : Int} {ok : Bool} (he : (Event.accepted fd ok).Possible r) :
    (replay r ((Event.accepted fd ok).acts r)).names
      = if r.Accepts ok then Function.update r.names fd (some (tempClientName fd).str)
        else r.names := by
  rw [Event.acts, replay_registerActs]
  funext g
  rw [names, node_add he.2]
  by_cases ha : r.Accepts ok
  · simp only [ha, and_true, if_true, Function.update_apply]
    split
    · rfl
    · rfl
  · simp only [ha, and_false, if_false]
    rfl

theorem names_closed (h : r.Wf) {fd : Int} :
    (replay r ((Event.closed fd).acts r)).names = Function.update r.names fd none := by
  -- what is written before the removal names nobody and keeps the registry well-formed
  have hbefore : ∀ acts, (∀ w, .wrote w ∈ acts → w.Nameless) → (∀ a ∈ acts, a.Plain) →
      (replay r (acts ++ [.wrote (.remove fd)])).names = Function.update r.names fd none := by
    intro acts hacts hplain
    funext g
    rw [replay_append, replay, replay, names, (h.replay_plain acts hplain).1.node_remove,
      Function.update_apply, ← names_replay acts r hacts]
    split <;> rfl
  simp only [Event.acts, closedActs]
  split
  · exact hbefore _ (by simp [Write.Nameless]) (by simp [Act.Plain, Write.Plain, ChatStatus.Stored])
  · exact hbefore [] (fun _ hw => absurd hw List.not_mem_nil) (List.forall_mem_nil _)

/-! ## Whole runs -/

/-- One event keeps names apart exactly if it stores no name that another client has. -/
theorem oneToOne_step (h : r.Wf) (hone : OneToOne r.names) {e : Event} (he : e.Possible r) :
    OneToOne (replay r (e.acts r)).names ↔ e.KeepsNames r := by
  cases e with
  | accepted fd ok =>
      rw [names_accepted he]
      have hother : ∀ n ∈ r.clientList, n.fd ≠ fd := look_eq_none_iff.mp he.2
      split
      · next ha =>
          rw [hone.update_some_iff, names_ne_iff h]
          exact ⟨fun hk _ n hn => hk n hn (hother n hn), fun hk n hn _ => hk ha n hn⟩
      · next ha => exact ⟨fun _ hacc => absurd hacc ha, fun _ => hone⟩
  | rxMsg fd msg =>
      by_cases hmsg : msg.msgType = .setNameReqType ∧
          r.checkClientWithSameNameExistOrNot msg.buffer.bytes = .nameNotExist
      · rw [names_setName h he hmsg.1 hmsg.2, hone.update_some_iff, names_ne_iff h]
        exact ⟨fun hk _ _ => hk, fun hk => hk hmsg.1 hmsg.2⟩
      · rw [names_replay _ r fun w hw => nameless_rx h he hmsg hw]
        exact ⟨fun _ ht hcheck => absurd ⟨ht, hcheck⟩ hmsg, fun _ => hone⟩
  | closed fd =>
      rw [names_closed h]
      exact ⟨fun _ => trivial, fun _ => hone.update_none fd⟩

/-- Over whole runs, names identify clients exactly as long as no client that joins gets a name
that is stored already, and no rename passes the check whose first 63 characters are the
name of another client. -/
theorem namesIdentify_everywhere_iff (es : List Event) :
    Everywhere atomicStep Registry.NamesIdentify .empty es ↔
      EveryStep atomicStep (fun r e => e.KeepsNames r) .empty es := by
  refine everywhere_iff good_atomicStep ?_ es good_empty ?_
  · intro r e r' acts h hid hs
    obtain ⟨he, rfl, -⟩ := atomicStep_eq_some_iff.mp hs
    rw [namesIdentify_iff (h.step he).wf]
    exact oneToOne_step h.wf ((namesIdentify_iff h.wf).mp hid) he
  · exact (namesIdentify_iff wf_empty).mpr fun _ _ _ hi => (nomatch hi)

/-- 4 takes the name that 7 gets when it joins. -/
theorem name_taken_before_joining :
    ¬ Everywhere atomicStep Registry.NamesIdentify .empty
      [joins 4, .rxMsg 4 (.withText .setNameReqType (ascii "temp_client_name_7")), joins 7] := by
  intro h
  have hid := h.at_play (play_final (by decide +kernel))
  have hdup : ¬ ((afterRun [joins 4,
      .rxMsg 4 (.withText .setNameReqType (ascii "temp_client_name_7")),
      joins 7]).clientList.map fun n => n.data.name.str).Nodup := by
    decide +kernel
  exact hdup hid.distinct

end ChatSocket

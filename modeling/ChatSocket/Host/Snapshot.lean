/-
# `Host.Snapshot` — what the list of clients says while others come and go

`send_client_list_handler` walks the list without the mutex.  The reply is no
snapshot of the registry at one moment: between two nodes anybody may register, leave
or change a name.  What it is all the same is `client_list_weakly_consistent`:

- the names in it are those of nodes that were in the list with that name when the walk came
  by, one after the other, in the order of registration, and none twice;
- unless the walk came by a node that had been removed, and as long as the text is shorter
  than a message by a name's length, every client that was there all the time is in it.

The walk comes by a node in one step here: what a change of its name between two reads of
the name makes of the text is left out, and a node that has been freed reads as one without
a name and without a next.
-/
import ChatSocket.Host.Pointers
import ChatSocket.Host.Walks
import ChatSocket.Kit.Runs

namespace ChatSocket

open Kit Registry

/-- What the walk has noted: which node, and after how many steps. -/
abbrev Sights : Type := List (Nat × ClientNode)

/-- The addresses of the nodes. -/
def Sights.addrs (seen : Sights) : List Nat := seen.map fun p => p.2.addr

/-- The names the nodes had then. -/
def Sights.names (seen : Sights) : List (List UInt8) := seen.map fun p => p.2.data.name.str

/-- The nodes were in the list when they were seen, one after the other. -/
structure Sights.Real (h₀ : Host) (ms : List Move) (seen : Sights) : Prop where
  times : seen.Pairwise fun p q => p.1 < q.1
  there : ∀ p ∈ seen, p.1 < ms.length ∧
    ∃ s, play hostStep h₀ (ms.take p.1) = some s ∧ p.2 ∈ s.registry.clientList

/-- In `get_client_list`. -/
def Stage.Lists : Stage → Prop
  | listHead | listing _ _ _ => True
  | _ => False

instance : DecidablePred Stage.Lists
  | .listHead | .listing _ _ _ => inferInstanceAs (Decidable True)
  | .starting | .greeting | .awaitingAck | .polling | .serving _ | .closing | .exited =>
      inferInstanceAs (Decidable False)

namespace Sights

variable {h₀ h : Host} {ms : List Move} {seen : Sights} {m : Move}

theorem Real.nil : Real h₀ ms [] := ⟨List.Pairwise.nil, fun _ hp => absurd hp List.not_mem_nil⟩

/-- The run goes on. -/
theorem Real.concat (hr : seen.Real h₀ ms) : seen.Real h₀ (ms ++ [m]) where
  times := hr.times
  there := by
    intro p hp
    obtain ⟨hlt, s, hs, hn⟩ := hr.there p hp
    refine ⟨?_, s, ?_, hn⟩
    · rw [List.length_append]
      exact Nat.lt_add_right _ hlt
    · rwa [List.take_append_of_le_length (Nat.le_of_lt hlt)]

/-- One more node is seen. -/
theorem Real.visit (hr : seen.Real h₀ ms) (hplay : play hostStep h₀ ms = some h) {n : ClientNode}
    (hn : n ∈ h.registry.clientList) : Real h₀ (ms ++ [m]) (seen ++ [(ms.length, n)]) where
  times := by
    refine List.pairwise_append.mpr ⟨hr.times, List.pairwise_singleton _ _, fun p hp q hq => ?_⟩
    rw [List.mem_singleton.mp hq]
    exact (hr.there p hp).1
  there := by
    intro p hp
    rcases List.mem_append.mp hp with hp | hp
    · exact hr.concat.there p hp
    · rw [List.mem_singleton.mp hp]
      refine ⟨?_, h, ?_, hn⟩
      · rw [List.length_append]
        exact Nat.lt_succ_self _
      · rwa [List.take_left' rfl]

@[simp] theorem addrs_concat (seen : Sights) (p : Nat × ClientNode) :
    addrs (seen ++ [p]) = seen.addrs ++ [p.2.addr] := List.map_append

theorem terminated_names_concat (seen : Sights) (p : Nat × ClientNode) :
    terminated space (names (seen ++ [p]))
      = terminated space seen.names ++ p.2.data.name.str ++ [space] := by
  simp [names, terminated, List.append_assoc]

end Sights

/-- A name that ends is shorter than its array. -/
theorem length_str_lt {k : Nat} {b : Buf k} (h : (0 : UInt8) ∈ b.bytes) : b.str.length < k := by
  obtain ⟨rest, hrest⟩ := exists_eq_cstr_append h
  have hlen := congrArg List.length hrest
  rw [List.length_append, List.length_cons, b.size_eq] at hlen
  show (cstr b.bytes).length < k
  omega

/-- The walk ends at a name that does not fit. -/
theorem listNode_eq_none {name : List UInt8} {list : Buf maxMsgLen} {listLen : Nat}
    (h : listNode name list listLen = none) : maxMsgLen ≤ listLen + strlen name + 1 := by
  by_contra hfits
  simp only [listNode, if_neg hfits] at h
  split at h <;> cases h

namespace Host

/-- Thread `t` is in `get_client_list`. -/
def Lists (t : Nat) (h : Host) : Prop := ∃ th ∈ h.threads t, th.stage.Lists

instance (t : Nat) (h : Host) : Decidable (h.Lists t) :=
  inferInstanceAs (Decidable (∃ th ∈ h.threads t, th.stage.Lists))

/-- The thread reads only nodes that are there. -/
def ReadsPresentBy (t : Nat) (h : Host) (m : Move) : Prop := m.isOf t = true → m.ReadsPresent h

variable {h₀ h h' : Host} {ms : List Move} {m : Move} {acts : List Act} {t : Nat}

/-- The client was there all the time, and the walk has met no removed node. -/
def Stays (t : Nat) (h₀ : Host) (ms : List Move) (a : Nat) : Prop :=
  Everywhere hostStep (fun s => s.registry.Present a) h₀ ms ∧
    EveryStep hostStep (ReadsPresentBy t) h₀ ms

theorem Stays.of_concat {a : Nat} (hst : Stays t h₀ (ms ++ [m]) a) : Stays t h₀ ms a :=
  ⟨hst.1.of_append, hst.2.of_append⟩

theorem Stays.mem {a : Nat} (hst : Stays t h₀ ms a) (hplay : play hostStep h₀ ms = some h) :
    a ∈ h.addrs := hst.1.at_play hplay

/-- What the walk has written down, where it is to read on. -/
def Noted (t : Nat) (h₀ : Host) (ms : List Move) (list : Buf maxMsgLen) (pos : Option Nat)
    (more : Prop) : Prop :=
  ∃ seen : Sights, seen.Real h₀ ms ∧ list.str = terminated space seen.names ∧
    Scanned (fun a => Stays t h₀ ms a ∧ more) pos seen.addrs

/-- The reply may lack names that did not fit. -/
def Roomy (list : Buf maxMsgLen) : Prop := list.str.length + maxClientNameLen < maxMsgLen

/-- What is known of a thread in `get_client_list`, and of one that has just left it. -/
def NotedAt (t : Nat) (h₀ : Host) (ms : List Move) : Stage → Prop
  | .listing a list _ => Noted t h₀ ms list (some a) True
  | .serving (.reply msg) => Noted t h₀ ms msg.buffer none (Roomy msg.buffer)
  | _ => True

theorem Noted.concat {list : Buf maxMsgLen} {pos : Option Nat} {more : Prop}
    (hn : Noted t h₀ ms list pos more) : Noted t h₀ (ms ++ [m]) list pos more := by
  obtain ⟨seen, hreal, htext, hscan⟩ := hn
  exact ⟨seen, hreal.concat, htext, hscan.mono fun a ha => ⟨ha.1.of_concat, ha.2⟩⟩

/-- Somebody else makes a step. -/
theorem NotedAt.concat {stage : Stage} (hn : NotedAt t h₀ ms stage) :
    NotedAt t h₀ (ms ++ [m]) stage := by
  cases stage with
  | listing a list listLen => exact Noted.concat hn
  | serving p =>
      cases p with
      | reply msg => exact Noted.concat hn
      | _ => trivial
  | _ => trivial

/-! ## The steps of the walk -/

/-- On to the next node, or to the reply. -/
theorem notedAt_listOn {next : Option Nat} {list : Buf maxMsgLen} (listLen : Nat)
    (hn : Noted t h₀ ms list next True) : NotedAt t h₀ ms (listOn next list listLen) := by
  cases next with
  | none =>
      obtain ⟨seen, hreal, htext, hscan⟩ := hn
      exact ⟨seen, hreal, htext, hscan.mono fun a ha => ⟨ha.1, trivial⟩⟩
  | some b => exact hn

theorem noted_start (hw : h.Walked) (hplay : play hostStep h₀ ms = some h) :
    Noted t h₀ (ms ++ [m]) (.zero _) (h.registry.clientList.head?.map ClientNode.addr) True := by
  refine ⟨[], .nil, rfl, ?_⟩
  rw [← List.head?_map]
  exact Scanned.start hw.ordered fun a ha => ha.1.of_concat.mem hplay

theorem notedAt_visit (hw : h.Walked) (hplay : play hostStep h₀ ms = some h) {a : Nat}
    {list : Buf maxMsgLen} {listLen : Nat} (hlist : list.str.length = listLen)
    (hreads : EveryStep hostStep (ReadsPresentBy t) h₀ (ms ++ [m]) → h.registry.Present a)
    (hn : Noted t h₀ ms list (some a) True) :
    NotedAt t h₀ (ms ++ [m]) (visit h.registry a list listLen) := by
  obtain ⟨seen, hreal, htext, hscan⟩ := hn
  have hstays : ∀ x, Stays t h₀ ms x ∧ True → x ∈ h.addrs := fun x hx => hx.1.mem hplay
  -- where the walk stops early nothing that stays is left, or there is no room
  have hstop : ∀ {more : Prop}, (∀ x, ¬ (Stays t h₀ (ms ++ [m]) x ∧ more)) →
      Noted t h₀ (ms ++ [m]) list none more := fun hnone =>
    ⟨seen, hreal.concat, htext, hscan.stop hnone⟩
  cases hl : look ClientNode.addr a h.registry.clientList with
  | none =>
      have hvisit : visit h.registry a list listLen = listReply list := by
        simp only [visit, hl]
      rw [hvisit]
      refine hstop fun x hx => ?_
      obtain ⟨n, hn, ha⟩ := List.mem_map.mp (hreads hx.1.2)
      exact look_eq_none_iff.mp hl n hn ha
  | some n =>
      have hmem := look_mem hl
      have hkey : n.addr = a := look_key hl
      cases hnode : listNode n.data.name.bytes list listLen with
      | none =>
          have hvisit : visit h.registry a list listLen = listReply list := by
            simp only [visit, hl, hnode]
          rw [hvisit]
          refine hstop fun x hx => ?_
          have hname := length_str_lt (hw.turning.sound.named n hmem)
          have hroom : list.str.length + maxClientNameLen < maxMsgLen := hx.2
          have hfull : maxMsgLen ≤ listLen + n.data.name.str.length + 1 := listNode_eq_none hnode
          omega
      | some p =>
          obtain ⟨hstr, hlen, -, -⟩ := listNode_eq_some hlist hnode
          have hvisit : visit h.registry a list listLen =
              listOn (nextAddr a h.registry.clientList) p.1 p.2 := by
            simp only [visit, hl, hnode]
          rw [hvisit]
          refine notedAt_listOn _ ⟨seen ++ [(ms.length, n)], hreal.visit hplay hmem, ?_, ?_⟩
          · rw [Sights.terminated_names_concat, ← htext]
            exact hstr
          · rw [Sights.addrs_concat, nextAddr_eq_after]
            have hseen := hscan.visit hw.ordered (hkey ▸ List.mem_map_of_mem hmem) hstays
            rw [← hkey] at hseen ⊢
            exact hseen.mono fun x hx => ⟨hx.1.of_concat, trivial⟩

/-- A step of a thread that is in `get_client_list`. -/
theorem notedAt_step (hw : h.Walked) (hplay : play hostStep h₀ ms = some h)
    (hs : hostStep h m = some (h', acts)) {th : Thread} (ht : h.threads t = some th)
    (hlists : h.Lists t) (hn : NotedAt t h₀ ms th.stage) :
    ∃ th', h'.threads t = some th' ∧ NotedAt t h₀ (ms ++ [m]) th'.stage := by
  have hstep := stepped_of_hostStep hs
  rcases em (∃ answer, m = .thread t answer) with ⟨answer, rfl⟩ | hm
  · obtain ⟨th₁, ht₁, hst⟩ := hlists
    cases ht.symm.trans (Option.mem_def.mp ht₁)
    obtain ⟨th', ht'⟩ := thread_after hstep
    refine ⟨th', ht', ?_⟩
    cases goes_of_step hstep ht ht' with
    | registers | greets | serves | closes => exact hst.elim
    | quiet hq =>
        cases hq with
        | lists => exact notedAt_listOn _ (noted_start hw hplay)
        | visits =>
            refine notedAt_visit hw hplay (hw.turning.lists t _ ht).1 (fun hreads => ?_) hn
            have hpresent := hreads.last hplay (by rw [hs]; rfl) (decide_eq_true rfl)
            exact hpresent _ ht _ (List.mem_singleton_self _)
        | _ => exact hst.elim
  · exact ⟨th, threads_kept hw.turning.sound hstep ht fun answer he => hm ⟨answer, he⟩, hn.concat⟩

/-- Along the walk. -/
theorem notedAt_of_run (hr : Reachable hostStep boot h₀) {fd : Int}
    (ht₀ : h₀.threads t = some ⟨fd, .listHead⟩) (hplay : play hostStep h₀ ms = some h)
    (hlists : EveryStep hostStep (fun s _ => s.Lists t) h₀ ms) :
    ∃ th, h.threads t = some th ∧ NotedAt t h₀ ms th.stage := by
  refine (play_induction (J := fun ms s => play hostStep h₀ ms = some s ∧ s.Walked ∧
    (EveryStep hostStep (fun s _ => s.Lists t) h₀ ms →
      ∃ th, s.threads t = some th ∧ NotedAt t h₀ ms th.stage)) ?_
    ⟨rfl, walked_of_reachable hr, fun _ => ⟨_, ht₀, trivial⟩⟩ hplay).2.2 hlists
  rintro ms s m s' acts ⟨hplay, hw, hnoted⟩ hs
  refine ⟨play_concat hplay hs, hw.step hs, fun hlists => ?_⟩
  obtain ⟨th, ht, hn⟩ := hnoted hlists.of_append
  exact notedAt_step hw hplay hs ht (hlists.last hplay (by rw [hs]; rfl)) hn

end Host

/-- Whatever happens between two visits of the walk, each of them one step, the reply says of nodes
that were seen one after the other what they were called then; and it lacks no client that was
there all the time, unless the walk has met a removed node, which reads as nameless and last, or
the text is full. -/
theorem client_list_weakly_consistent {h₀ h : Host} (hr : Reachable hostStep .boot h₀) {t : Nat}
    {fd : Int} (ht₀ : h₀.threads t = some ⟨fd, .listHead⟩) {ms : List Move}
    (hplay : play hostStep h₀ ms = some h)
    (hlists : EveryStep hostStep (fun s _ => s.Lists t) h₀ ms) {msg : Msg}
    (ht : h.threads t = some ⟨fd, .serving (.reply msg)⟩) :
    ∃ seen : Sights, seen.Real h₀ ms ∧ seen.addrs.Pairwise (· < ·) ∧
      msg.buffer.str = terminated space seen.names ∧
      (EveryStep hostStep (Host.ReadsPresentBy t) h₀ ms →
        msg.buffer.str.length + maxClientNameLen < maxMsgLen →
        ∀ a, Everywhere hostStep (fun s => s.registry.Present a) h₀ ms → a ∈ seen.addrs) := by
  obtain ⟨th, hth, hnoted⟩ := Host.notedAt_of_run hr ht₀ hplay hlists
  cases ht.symm.trans hth
  obtain ⟨seen, hreal, htext, hscan⟩ := hnoted
  exact ⟨seen, hreal, hscan.increasing, htext, fun hreads hroom a ha =>
    hscan.all_seen a ⟨⟨ha, hreads⟩, hroom⟩⟩

/-- 4 has asked for the list; 5 is there too. -/
@[irreducible] def asksBesideFive : List Move :=
  arrives 0 4 ++ arrives 1 5 ++ [tells 0 (.ofType .getClientListType)]

/-- 6 comes while the list is walked. -/
@[irreducible] def sixComes : List Move := [go 0, go 0] ++ arrives 2 6 ++ [go 0, go 0]

/-- The reply that has all three. -/
@[irreducible] def listOfThree : Msg :=
  { Msg.ofType .getClientListType with
    buffer := ((final hostStep (afterMoves asksBesideFive) sixComes).registry.getClientList
      (.zero _)).2 }

theorem list_has_the_newcomer :
    ∃ seen : Sights, seen.Real (afterMoves asksBesideFive) sixComes ∧
      seen.addrs.Pairwise (· < ·) ∧ listOfThree.buffer.str = terminated space seen.names ∧
      (EveryStep hostStep (Host.ReadsPresentBy 0) (afterMoves asksBesideFive) sixComes →
        listOfThree.buffer.str.length + maxClientNameLen < maxMsgLen →
        ∀ a, Everywhere hostStep (fun s => s.registry.Present a) (afterMoves asksBesideFive)
          sixComes → a ∈ seen.addrs) :=
  @client_list_weakly_consistent _ _ ⟨asksBesideFive, play_final (by decide +kernel)⟩ 0 4
    (by decide +kernel) _ (play_final (by decide +kernel)) (by decide +kernel) _
    (by decide +kernel)

end ChatSocket

/-
# `Host.Walks` — the list under the walks that take no mutex

A node is appended under the address that `malloc` has just handed out, and every
address is handed out once and upwards.  So the list is always in the order of its
addresses, whoever adds and removes nodes, and the node after another in it is the
next one of those that are there (`Kit.Scan`).
-/
import ChatSocket.Host.Turns
import ChatSocket.Kit.Scan

namespace ChatSocket

open Kit Registry

theorem nextAddr_eq_after (a : Nat) (l : List ClientNode) :
    nextAddr a l = after a (l.map ClientNode.addr) := by
  induction l with
  | nil => rfl
  | cons n l ih => rw [nextAddr, List.map_cons, after, List.head?_map, ih]

namespace Host

variable {h h' : Host} {m : Move} {acts : List Act}

/-- The addresses of the nodes, in the order of the list. -/
def addrs (h : Host) : List Nat := h.registry.clientList.map ClientNode.addr

theorem Sound.addr_lt (hs : h.Sound) : ∀ a ∈ h.addrs, a < h.registry.mallocs := by
  intro a ha
  obtain ⟨n, hn, rfl⟩ := List.mem_map.mp ha
  exact hs.wf.fresh n hn

/-- A step appends a node, or takes some away. -/
theorem addrs_step (hs : h.Sound) (hstep : Stepped h m h' acts) :
    (∃ t th, m = .thread t (.malloc true) ∧ h.threads t = some th ∧ th.stage = .starting ∧
        h'.addrs = h.addrs ++ [h.registry.mallocs]) ∨
      h'.addrs.Sublist h.addrs := by
  cases hstep with
  | loops | accepts | spawns | terminates | quiet | turnsAway | greets =>
      exact Or.inr (List.Sublist.refl _)
  | @frees n rest _ _ _ hlist =>
      have hsub : rest.Sublist h.registry.clientList := hlist ▸ List.sublist_cons_self n rest
      exact Or.inr (hsub.map ClientNode.addr)
  | @registers t th ok ht hst _ =>
      have hreg := replay_registerActs h.registry th.fd ok
      rcases em (h.registry.Accepts ok) with ha | ha
      · refine Or.inl ⟨t, th, by rw [ha.2], ht, hst, ?_⟩
        show (replay h.registry (registerActs h.registry th.fd ok)).clientList.map _ = _
        rw [hreg, Write.apply, h.registry.addClientNodeToQueue_eq th.fd ha, List.map_append]
        rfl
      · right
        show ((replay h.registry (registerActs h.registry th.fd ok)).clientList.map _).Sublist _
        rw [hreg, Write.apply, (h.registry.addClientNodeToQueue_full th.fd ha).2]
        exact List.Sublist.refl _
  | @serves t th p _ _ _ _ =>
      have hsame := sameNodes_replay _ h.registry (Point.inner_acts th.fd h.registry p)
      right
      show ((replay h.registry (p.acts th.fd h.registry)).clientList.map _).Sublist _
      rw [hsame.addrs]
      exact List.Sublist.refl _
  | @closes t th ht hst _ =>
      have hinner := inner_closedActs h.registry th.fd
      have hsame := sameNodes_replay _ h.registry hinner
      right
      show ((replay h.registry (closedActs h.registry th.fd)).clientList.map _).Sublist _
      rw [closedActs, replay_append]
      show (((Write.remove th.fd).apply _).clientList.map _).Sublist _
      rw [(hs.wf.replay_inner hinner).clientList_remove]
      rw [addrs, ← hsame.addrs]
      exact List.eraseP_sublist.map _

/-- The list is in the order of the addresses. -/
def Ordered (h : Host) : Prop := h.addrs.Pairwise (· < ·)

theorem Ordered.step (ho : h.Ordered) (hs : h.Sound) (hstep : Stepped h m h' acts) :
    h'.Ordered := by
  rcases addrs_step hs hstep with ⟨_, _, -, -, -, he⟩ | hsub
  · rw [Ordered, he, List.pairwise_append]
    refine ⟨ho, List.pairwise_singleton _ _, fun a ha b hb => ?_⟩
    rw [List.mem_singleton.mp hb]
    exact hs.addr_lt a ha
  · exact ho.sublist hsub

/-- The process as far as its walks go. -/
structure Walked (h : Host) : Prop where
  turning : h.Turning
  ordered : h.Ordered

theorem walked_boot : boot.Walked := ⟨turning_boot, List.Pairwise.nil⟩

theorem Walked.step (hw : h.Walked) (hs : hostStep h m = some (h', acts)) : h'.Walked :=
  ⟨hw.turning.step hs, hw.ordered.step hw.turning.sound (stepped_of_hostStep hs)⟩

theorem walked_of_reachable (hr : Reachable hostStep boot h) : h.Walked :=
  hr.inv (fun _ _ _ _ hw hs => hw.step hs) walked_boot

end Host

end ChatSocket

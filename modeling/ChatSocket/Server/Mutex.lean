/-
# `Server.Mutex` — is the registry mutex given back?

From a free mutex every event runs to its end: no handler locks what it holds
or unlocks what it does not.  One path ends without unlocking, the one on which
`handle_conn_accept` finds no link; every later operation on the mutex blocks.
-/
import ChatSocket.Server.Atomic

namespace ChatSocket

open Kit

/-- The mutex is free, and whatever comes next is handled to its end. -/
def Server.Ready (s : Server) : Prop :=
  s.mutexHeld = false ∧ ∀ e : Event, e.Possible s.registry → (serverStep s e).isSome

/-- A client accepts that has no link. -/
def Event.AcceptsNobody (r : Registry) : Event → Prop
  | rxMsg fd msg => msg.msgType = .clientAcceptConnection ∧ r.getConnFdByFd fd = invalidFd
  | _ => False

theorem Event.leavesHeld_iff (r : Registry) (e : Event) :
    e.leavesHeld r = true ↔ e.AcceptsNobody r := by
  cases e with
  | accepted fd mallocOk | rxMsg fd msg | closed fd => simp [leavesHeld, AcceptsNobody]

/-- An event is handled to its end from a free mutex exactly if it can happen. -/
theorem serverStep_isSome_iff (r : Registry) (e : Event) :
    (serverStep ⟨r, false⟩ e).isSome ↔ e.Possible r := by
  rw [serverStep_free]
  split
  · next h => exact ⟨fun _ => h, fun _ => rfl⟩
  · next h => exact ⟨fun hs => absurd hs (by simp), fun hp => absurd hp h⟩

theorem Server.ready_iff (s : Server) : s.Ready ↔ s.mutexHeld = false := by
  refine ⟨fun h => h.1, fun h => ⟨h, fun e he => ?_⟩⟩
  obtain ⟨r, held⟩ := s
  obtain rfl : held = false := h
  exact (serverStep_isSome_iff r e).mpr he

/-- One event from a free mutex. -/
theorem ready_step {s s' : Server} {e : Event} {acts : List Act} (hs : s.Ready)
    (h : serverStep s e = some (s', acts)) : s'.Ready ↔ ¬ e.AcceptsNobody s.registry := by
  obtain ⟨r, held⟩ := s
  obtain rfl : held = false := hs.1
  rw [serverStep_free] at h
  split at h
  · cases h
    rw [Server.ready_iff, ← Event.leavesHeld_iff, Bool.not_eq_true]
  · cases h

/-- Every event that can happen is handled to its end from a free mutex, and over a whole run
the mutex is free after every event exactly if no client without a link accepts. -/
theorem mutex_given_back_iff (r : Registry) (e : Event) (es : List Event) :
    ((serverStep ⟨r, false⟩ e).isSome ↔ e.Possible r) ∧
    ((∃ s acts, serverStep ⟨r, false⟩ e = some (s, acts) ∧ s.mutexHeld = false) ↔
      e.Possible r ∧ ¬ e.AcceptsNobody r) ∧
    (Everywhere serverStep Server.Ready .boot es ↔
      EveryStep serverStep (fun s e => ¬ e.AcceptsNobody s.registry) .boot es) := by
  have hready : Server.Ready ⟨r, false⟩ := (Server.ready_iff _).mpr rfl
  refine ⟨serverStep_isSome_iff r e, ⟨?_, ?_⟩, ?_⟩
  · rintro ⟨s, acts, hs, hfree⟩
    have he := (serverStep_isSome_iff r e).mp (by rw [hs]; rfl)
    exact ⟨he, (ready_step hready hs).mp ((Server.ready_iff s).mpr hfree)⟩
  · rintro ⟨he, hn⟩
    have hsome := (serverStep_isSome_iff r e).mpr he
    obtain ⟨⟨s, acts⟩, hs⟩ := Option.isSome_iff_exists.mp hsome
    exact ⟨s, acts, hs, ((ready_step hready hs).mpr hn).1⟩
  · exact everywhere_iff (I := fun _ => True) (fun _ _ _ _ _ _ => trivial)
      (fun s e s' acts _ hs h => ready_step hs h) es trivial ((Server.ready_iff _).mpr rfl)

/-- A client that has just connected sends MSG_CLIENT_ACCEPT_CONNECTION. -/
theorem mutex_left_held :
    ¬ Everywhere serverStep Server.Ready .boot
      [.accepted 4 true, .rxMsg 4 (.ofType .clientAcceptConnection)] := by
  intro h
  have hfree := h.mono (Q := fun s => s.mutexHeld = false) fun s hs => hs.1
  revert hfree
  decide +kernel

end ChatSocket

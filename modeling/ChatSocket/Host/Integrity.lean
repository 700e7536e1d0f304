/-
# `Host.Integrity` — the registry, whoever runs beside whom

Two things are true of the registry at every moment of every run, however the
accept loop and the client threads interleave: it represents a bounded set of
connections, counted and named (`represents_everywhere`), and no client in it is
linked to itself (`noSelfLink_everywhere`).

The second needs an invariant of the handlers.  A CONNECT that names its own
client is refused by comparing names once, and the target is looked up by name
again in a later section; between the two the own name cannot change, because
only a client's own thread renames it.
-/
import ChatSocket.Host.Effects

namespace ChatSocket

open Kit Registry

/-! ## The registry represents its connections -/

structure Registry.Represents (r : Registry) : Prop where
  counted : r.totalAvailableClients.toNat = r.clientList.length
  bounded : r.clientList.length ≤ maxClient
  distinct : (r.clientList.map ClientNode.fd).Nodup
  valid : ∀ n ∈ r.clientList, n.fd ≠ invalidFd
  /-- The array of a name has `MAX_CLIENT_NAME_LEN` bytes. -/
  terminated : ∀ n ∈ r.clientList, (0 : UInt8) ∈ n.data.name.bytes
  stored : ∀ n ∈ r.clientList,
    n.data.chatStatus = .free ∨ n.data.chatStatus = .busy ∨ n.data.chatStatus = .reqPending

/-- At every moment before `free_all_client_nodes`, the registry represents its connections. -/
theorem represents_everywhere (ms : List Move) :
    Everywhere hostStep (fun h => ¬ h.loop.Shut → h.registry.Represents) .boot ms :=
  Everywhere.mono
    (fun _ hs hl =>
      { counted := hs.counted hl
        bounded := hs.bounded hl
        distinct := hs.wf.fds
        valid := hs.wf.valid
        terminated := hs.named
        stored := hs.wf.stored })
    (everywhere_of_inv (fun _ _ _ _ hs hstep => Host.Sound.step hs hstep) ms Host.sound_boot)

/-! ## Nobody is linked to himself -/

/-- No client is linked to itself. -/
def Registry.NoSelfLink (r : Registry) : Prop := ∀ n ∈ r.clientList, n.data.toFd ≠ n.fd

/-- The handler is not on its way to link its client to itself. -/
def Point.NotSelf (fd : Int) (r : Registry) : Point → Prop
  | claim name _ => r.names fd ≠ some (cstr name)
  | link _ _ connFd | pair connFd => connFd ≠ fd
  | _ => True

def Stage.NotSelf (fd : Int) (r : Registry) : Stage → Prop
  | serving p => p.NotSelf fd r
  | _ => True

variable {r : Registry}

namespace Point

variable {fd : Int} {p : Point}

theorem notSelf_start (msg : Msg) : (start msg).NotSelf fd r := by
  unfold start
  split <;> trivial

/-- The name a request is for is not the own name when it goes on. -/
theorem names_ne_of_nameOf (hr : r.Wf) {name : List UInt8} (hne : strcmp (r.nameOf fd) name ≠ 0) :
    r.names fd ≠ some (cstr name) := by
  intro he
  obtain ⟨n, hnode, hname⟩ := Option.map_eq_some_iff.mp he
  apply hne
  rw [strcmp_eq_zero_iff, hr.nameOf_eq hnode, hname, cstr_cstr]

/-- The client that is found by another name is another. -/
theorem getClientFdByName_ne (hr : r.Wf) {name : List UInt8}
    (hne : r.names fd ≠ some (cstr name)) (hfd : r.getClientFdByName name ≠ invalidFd) :
    r.getClientFdByName name ≠ fd := by
  rw [getClientFdByName_eq] at hfd ⊢
  cases hn : r.nodeByName name with
  | none => exact absurd (by rw [hn]; rfl) hfd
  | some n =>
      rintro rfl
      have hname := nodeByName_name hn
      rw [strcmp_eq_zero_iff] at hname
      exact hne (by rw [hname]; exact names_eq_some hr (nodeByName_mem hn))

theorem getConnFdByFd_ne (hr : r.Wf) (hn : r.NoSelfLink)
    (hfd : r.getConnFdByFd fd ≠ invalidFd) : r.getConnFdByFd fd ≠ fd := by
  rw [hr.connFd_eq] at hfd ⊢
  cases hnode : r.node fd with
  | none => exact absurd (by rw [hnode]; rfl) hfd
  | some n =>
      obtain rfl : n.fd = fd := look_key hnode
      exact hn n (look_mem hnode)

theorem notSelf_next (hr : r.Wf) (hn : r.NoSelfLink) (hp : p.NotSelf fd r) :
    (p.next fd r).NotSelf fd (replay r (p.acts fd r)) := by
  cases p with
  | connect name =>
      simp only [next]
      split
      · trivial
      split
      · trivial
      next hname =>
      split
      · exact names_ne_of_nameOf hr hname
      · trivial
      · trivial
      · trivial
      · trivial
  | claim name myName =>
      simp only [next]
      split
      · trivial
      next hfound => exact getClientFdByName_ne hr hp hfound
  | accept =>
      simp only [next]
      split
      · trivial
      next hpeer =>
      split
      · trivial
      split
      · trivial
      split
      · trivial
      · exact getConnFdByFd_ne hr hn hpeer
  | setName | checkConn | checkMine | decline | tx =>
      simp only [next]
      repeat' split
      all_goals trivial
  | _ => trivial

end Point

namespace Host

variable {h h' : Host} {m : Move} {acts : List Act}

structure Unlinked (h : Host) : Prop where
  registry : h.registry.NoSelfLink
  stages : ∀ t th, h.threads t = some th → th.stage ≠ .exited → th.stage.NotSelf th.fd h.registry

theorem notSelf_quiets {r r' : Registry} {terminate : Bool} {stage stage' : Stage} {answer : Answer}
    {fd : Int} (hq : Quiets r terminate stage answer stage') : stage'.NotSelf fd r' :=
  after_quiets (P := Stage.NotSelf fd r') hq trivial trivial trivial trivial
    (fun _ _ _ => trivial) trivial (fun _ => trivial) fun msg => Point.notSelf_start msg

/-- What others do leaves a handler on its way to another client. -/
theorem notSelf_other (hs : h.Sound) (hstep : Stepped h m h' acts) {t : Nat} {th : Thread}
    (ht : h.threads t = some th) (hex : th.stage ≠ .exited) (hm : ∀ answer, m ≠ .thread t answer)
    (hp : th.stage.NotSelf th.fd h.registry) : th.stage.NotSelf th.fd h'.registry := by
  cases hst : th.stage with
  | serving p =>
      rw [hst] at hp
      cases p with
      | claim name myName =>
          have hp : h.registry.names th.fd ≠ some (cstr name) := hp
          rcases hs.names_other hstep ht hex hm with he | he
          · show h'.registry.names th.fd ≠ some (cstr name)
            rw [he]
            exact hp
          · show h'.registry.names th.fd ≠ some (cstr name)
            rw [he]
            simp
      | _ => exact hp
  | _ => trivial

theorem Unlinked.step (hs : h.Sound) (hu : h.Unlinked) (hstep : Stepped h m h' acts) :
    h'.Unlinked := by
  refine ⟨?_, forall_threads hstep (fun _ _ _ _ => trivial) ?_ fun t th hm ht hex =>
    notSelf_other hs hstep ht hex hm (hu.stages t th ht hex)⟩
  · refine links_step (Q := fun g f => f ≠ g) hs hstep hu.registry (fun g hg => hg.symm) ?_
    rintro t th p g - ht hst hg
    have hp := hu.stages t th ht (by simp [hst])
    rw [hst] at hp
    cases p with
    | link | pair =>
        cases hg
        exact ⟨hp, Ne.symm hp⟩
    | _ => cases hg
  · rintro t answer th th' rfl ht ht' hex
    cases goes_of_step hstep ht ht' with
    | registers hst => rcases hst with rfl | rfl <;> trivial
    | greets | closes => trivial
    | serves hdone =>
        obtain ⟨-, -, rfl⟩ := serving_step hstep ht hdone
        exact Point.notSelf_next hs.wf hu.registry (hu.stages t _ ht (by simp))
    | quiet hq => exact notSelf_quiets hq

end Host

theorem noSelfLink_everywhere (ms : List Move) :
    Everywhere hostStep (fun h => h.registry.NoSelfLink) .boot ms :=
  Everywhere.mono (fun _ hI => hI.2.registry)
    (everywhere_of_inv
      (fun _ _ _ _ hI hstep =>
        ⟨hI.1.step hstep, Host.Unlinked.step hI.1 hI.2 (stepped_of_hostStep hstep)⟩) ms
      (I := fun h => h.Sound ∧ h.Unlinked)
      ⟨Host.sound_boot, fun _ hn => absurd hn List.not_mem_nil, fun _ _ ht => nomatch ht⟩)

end ChatSocket

/-
# `Server.Registry` — what the registry answers after a write

The list is read by walks for a descriptor (`node`).  The first section says
what such a walk finds after each `Write`, and that a write to a status or a
link changes no name.

`Wf` is what every registration promises and no write breaks: descriptors and
addresses are pairwise different, no descriptor is `INVALID_FD`, addresses come
from earlier `malloc`s, and a stored status is one of the three a client can
have.  `Write.Ok` is what a write has to respect for that.
-/
import ChatSocket.Server.Mgmt

namespace ChatSocket

open Kit

namespace Registry

variable (r : Registry)

/-! ## Reading after a write -/

theorem node_modify {f : ClientData → ClientData} (hf : ∀ d, (f d).fd = d.fd) (fd g : Int) :
    (r.modify fd f).node g
      = if g = fd then (r.node fd).map fun n => { n with data := f n.data } else r.node g :=
  look_alter fun n => hf n.data

theorem modify_of_node_eq_none {f : ClientData → ClientData} {fd : Int} (h : r.node fd = none) :
    r.modify fd f = r := by
  rw [modify, alter_eq_self h]

theorem node_eq_none_of_nil {r : Registry} (h : r.clientList = []) (fd : Int) :
    r.node fd = none := by
  rw [node, h, look_nil]

theorem getClientNameByFd_eq (fd : Int) :
    r.getClientNameByFd fd
      = if fd = invalidFd then .undefName
        else ((r.node fd).map fun n => CharPtr.nodeName n.addr).getD .undefName := by
  unfold getClientNameByFd
  split
  · next h => simp [node_eq_none_of_nil h]
  · split
    · rfl
    · cases r.node fd <;> rfl

theorem strAt_nodeName (a : Nat) :
    r.strAt (.nodeName a)
      = ((look ClientNode.addr a r.clientList).map fun n => n.data.name.str).getD [] := by
  simp only [strAt]
  cases look ClientNode.addr a r.clientList <;> rfl

/-- The name a client goes by: the C string behind `get_client_name_by_fd`. -/
def nameOf (fd : Int) : List UInt8 := r.strAt (r.getClientNameByFd fd)

/-- A change that keeps a node's name keeps what every name pointer leads to. -/
theorem strAt_modify {f : ClientData → ClientData} (hf : ∀ d, (f d).name = d.name) (fd : Int)
    (p : CharPtr) : (r.modify fd f).strAt p = r.strAt p := by
  cases p with
  | undefName => rfl
  | nodeName a =>
      rw [strAt_nodeName, strAt_nodeName]
      exact congrArg (Option.getD · [])
        (map_look_alter (fun _ => rfl) fun n => congrArg Buf.str (hf n.data))

theorem getClientNameByFd_modify {f : ClientData → ClientData} (hf : ∀ d, (f d).fd = d.fd)
    (fd g : Int) : (r.modify fd f).getClientNameByFd g = r.getClientNameByFd g := by
  rw [getClientNameByFd_eq, getClientNameByFd_eq, r.node_modify hf]
  split
  · rfl
  · split
    · next h => subst h; cases r.node g <;> rfl
    · rfl

end Registry

namespace Write

variable (r : Registry)

/-! ## The writes that go through a node's pointer -/

/-- A change of a status, as a write through the node's pointer. -/
theorem apply_status {fd : Int} {s : ChatStatus} (hfd : fd ≠ invalidFd) (hs : s ≠ .max) :
    (Write.status fd s).apply r = r.modify fd fun d => { d with chatStatus := s } := by
  simp only [apply, Registry.setClientChattingStatusByFd, if_neg hs, if_neg hfd]
  split
  · next h => exact (r.modify_of_node_eq_none h).symm
  · rfl

theorem apply_toFd {fd f : Int} (hfd : fd ≠ invalidFd) :
    (Write.toFd fd f).apply r = r.modify fd fun d => { d with toFd := f } := by
  simp only [apply, Registry.setToFdByFd, if_neg hfd]
  split
  · next h => exact (r.modify_of_node_eq_none h).symm
  · rfl

theorem apply_name {fd : Int} {s : List UInt8} (hfd : fd ≠ invalidFd) :
    (Write.name fd s).apply r
      = r.modify fd fun d => { d with name := Registry.storeName d.name s } := by
  simp only [apply, Registry.setNameOfClientByClientFd, if_neg hfd]
  split
  · next h => exact (r.modify_of_node_eq_none (Registry.node_eq_none_of_nil h fd)).symm
  · split
    · next h => exact (r.modify_of_node_eq_none h).symm
    · rfl

/-- A status is written through the pointer, or not at all. -/
theorem apply_status_cases (fd : Int) (s : ChatStatus) :
    (Write.status fd s).apply r = r ∨
      (Write.status fd s).apply r = r.modify fd fun d => { d with chatStatus := s } := by
  by_cases hs : s = .max
  · exact Or.inl (by simp [apply, Registry.setClientChattingStatusByFd, hs])
  · by_cases hfd : fd = invalidFd
    · exact Or.inl (by simp [apply, Registry.setClientChattingStatusByFd, hs, hfd])
    · exact Or.inr (apply_status r hfd hs)

theorem apply_toFd_cases (fd f : Int) :
    (Write.toFd fd f).apply r = r ∨
      (Write.toFd fd f).apply r = r.modify fd fun d => { d with toFd := f } := by
  by_cases hfd : fd = invalidFd
  · exact Or.inl (by simp [apply, Registry.setToFdByFd, hfd])
  · exact Or.inr (apply_toFd r hfd)

theorem apply_name_cases (fd : Int) (s : List UInt8) :
    (Write.name fd s).apply r = r ∨
      (Write.name fd s).apply r
        = r.modify fd fun d => { d with name := Registry.storeName d.name s } := by
  by_cases hfd : fd = invalidFd
  · refine Or.inl ?_
    simp only [apply, Registry.setNameOfClientByClientFd, if_pos hfd]
    split <;> rfl
  · exact Or.inr (apply_name r hfd)

/-- The writes that go through a node's pointer. -/
def Modifies : Write → Prop
  | add _ _ | remove _ => False
  | status _ _ | name _ _ | toFd _ _ => True

/-- What such a write changes in the node. -/
def change : Write → ClientData → ClientData
  | status _ s, d => { d with chatStatus := s }
  | toFd _ f, d => { d with toFd := f }
  | name _ s, d => { d with name := Registry.storeName d.name s }
  | add _ _, d | remove _, d => d

theorem change_fd : ∀ (w : Write) (d : ClientData), (w.change d).fd = d.fd
  | status _ _, _ | toFd _ _, _ | name _ _, _ | add _ _, _ | remove _, _ => rfl

/-- What holds of the registry, and of the registry with one node changed, holds after. -/
theorem apply_of_modifies {P : Registry → Prop} {r : Registry} (hr : P r) :
    ∀ {w : Write}, w.Modifies → (∀ fd, P (r.modify fd w.change)) → P (w.apply r)
  | status fd s, _, hm => by
      rcases apply_status_cases r fd s with he | he <;> rw [he]
      · exact hr
      · exact hm fd
  | toFd fd f, _, hm => by
      rcases apply_toFd_cases r fd f with he | he <;> rw [he]
      · exact hr
      · exact hm fd
  | name fd s, _, hm => by
      rcases apply_name_cases r fd s with he | he <;> rw [he]
      · exact hr
      · exact hm fd

@[simp] theorem strAt_status (fd : Int) (s : ChatStatus) (p : CharPtr) :
    ((Write.status fd s).apply r).strAt p = r.strAt p :=
  apply_of_modifies (P := fun r' => r'.strAt p = r.strAt p) rfl (w := .status fd s) trivial
    fun fd => r.strAt_modify (fun _ => by rfl) fd p

@[simp] theorem strAt_toFd (fd f : Int) (p : CharPtr) :
    ((Write.toFd fd f).apply r).strAt p = r.strAt p :=
  apply_of_modifies (P := fun r' => r'.strAt p = r.strAt p) rfl (w := .toFd fd f) trivial
    fun fd => r.strAt_modify (fun _ => by rfl) fd p

@[simp] theorem getClientNameByFd_status (fd g : Int) (s : ChatStatus) :
    ((Write.status fd s).apply r).getClientNameByFd g = r.getClientNameByFd g :=
  apply_of_modifies (P := fun r' => r'.getClientNameByFd g = r.getClientNameByFd g) rfl
    (w := .status fd s) trivial fun fd => r.getClientNameByFd_modify (change_fd _) fd g

@[simp] theorem getClientNameByFd_toFd (fd f g : Int) :
    ((Write.toFd fd f).apply r).getClientNameByFd g = r.getClientNameByFd g :=
  apply_of_modifies (P := fun r' => r'.getClientNameByFd g = r.getClientNameByFd g) rfl
    (w := .toFd fd f) trivial fun fd => r.getClientNameByFd_modify (change_fd _) fd g

end Write

/-! ## Well-formed registries -/

/-- The statuses a client can have; the other two are answers and a bound. -/
def ChatStatus.Stored (s : ChatStatus) : Prop := s = .free ∨ s = .busy ∨ s = .reqPending

/-- The records have descriptors and addresses of their own, and no descriptor is
`INVALID_FD`. -/
structure Registry.Distinct (r : Registry) : Prop where
  fds : (r.clientList.map ClientNode.fd).Nodup
  addrs : (r.clientList.map ClientNode.addr).Nodup
  valid : ∀ n ∈ r.clientList, n.fd ≠ invalidFd

/-- What every registration promises and every write keeps. -/
structure Registry.Wf (r : Registry) : Prop where
  fds : (r.clientList.map ClientNode.fd).Nodup
  addrs : (r.clientList.map ClientNode.addr).Nodup
  valid : ∀ n ∈ r.clientList, n.fd ≠ invalidFd
  fresh : ∀ n ∈ r.clientList, n.addr < r.mallocs
  stored : ∀ n ∈ r.clientList, n.data.chatStatus.Stored

/-- What a write has to respect: a registration comes under a descriptor that is not in use,
and a status that is set is a client's. -/
def Write.Ok (r : Registry) : Write → Prop
  | add fd _ => fd ≠ invalidFd ∧ r.node fd = none
  | status _ s => s.Stored
  | _ => True

namespace Registry

theorem wf_empty : empty.Wf :=
  ⟨List.nodup_nil, List.nodup_nil, fun _ h => absurd h List.not_mem_nil,
    fun _ h => absurd h List.not_mem_nil, fun _ h => absurd h List.not_mem_nil⟩

variable {r : Registry}

/-! ### Records under descriptors of their own -/

theorem Distinct.node_invalidFd (h : r.Distinct) : r.node invalidFd = none :=
  look_eq_none_iff.mpr fun n hn => h.valid n hn

theorem Distinct.ne_invalidFd (h : r.Distinct) {fd : Int} (hfd : (r.node fd).isSome) :
    fd ≠ invalidFd := by
  rintro rfl
  rw [h.node_invalidFd] at hfd
  cases hfd

/-- A walk for a descriptor and a walk for the address it leads to end at one node. -/
theorem Distinct.look_addr (h : r.Distinct) {fd : Int} {n : ClientNode}
    (hn : r.node fd = some n) : look ClientNode.addr n.addr r.clientList = some n :=
  look_of_mem h.addrs (look_mem hn)

theorem Distinct.node_of_mem (h : r.Distinct) {n : ClientNode} (hn : n ∈ r.clientList) :
    r.node n.fd = some n := look_of_mem h.fds hn

theorem Distinct.status_eq (h : r.Distinct) (fd : Int) :
    r.getClientChattingStatusByFd fd
      = ((r.node fd).map fun n => n.data.chatStatus).getD .clientNotFound := by
  unfold getClientChattingStatusByFd
  split
  · next hfd => rw [hfd, h.node_invalidFd]; rfl
  · cases r.node fd <;> rfl

theorem Distinct.connFd_eq (h : r.Distinct) (fd : Int) :
    r.getConnFdByFd fd = ((r.node fd).map fun n => n.data.toFd).getD invalidFd := by
  unfold getConnFdByFd
  split
  · next hfd => rw [hfd, h.node_invalidFd]; rfl
  · cases r.node fd <;> rfl

theorem Distinct.modify (h : r.Distinct) (fd : Int) {f : ClientData → ClientData}
    (hf : ∀ d, (f d).fd = d.fd) : (r.modify fd f).Distinct where
  fds := by
    show List.Nodup (List.map ClientNode.fd (alter _ _ _ _))
    rw [map_alter_of_eq fun n => hf n.data]
    exact h.fds
  addrs := by
    show List.Nodup (List.map ClientNode.addr (alter _ _ _ _))
    rw [map_alter_of_eq fun _ => by rfl]
    exact h.addrs
  valid := forall_alter (p := fun n : ClientNode => n.fd ≠ invalidFd)
    (fun n hn => by
      show (f n.data).fd ≠ invalidFd
      rw [hf]
      exact hn) h.valid

theorem Wf.distinct (h : r.Wf) : r.Distinct := ⟨h.fds, h.addrs, h.valid⟩

theorem Wf.node_invalidFd (h : r.Wf) : r.node invalidFd = none := h.distinct.node_invalidFd

theorem Wf.ne_invalidFd (h : r.Wf) {fd : Int} (hfd : (r.node fd).isSome) : fd ≠ invalidFd :=
  h.distinct.ne_invalidFd hfd

theorem Wf.look_addr (h : r.Wf) {fd : Int} {n : ClientNode} (hn : r.node fd = some n) :
    look ClientNode.addr n.addr r.clientList = some n := h.distinct.look_addr hn

theorem Wf.node_of_mem (h : r.Wf) {n : ClientNode} (hn : n ∈ r.clientList) :
    r.node n.fd = some n := h.distinct.node_of_mem hn

/-- Addresses tell nodes apart. -/
theorem Wf.eq_of_addr (h : r.Wf) {fd g : Int} {n m : ClientNode} (hn : r.node fd = some n)
    (hm : r.node g = some m) (ha : n.addr = m.addr) : fd = g := by
  have hnm : some n = some m := by
    rw [← h.look_addr hn, ← h.look_addr hm, ha]
  obtain rfl := Option.some.inj hnm
  exact (look_key hn).symm.trans (look_key hm)

theorem Wf.status_eq (h : r.Wf) (fd : Int) :
    r.getClientChattingStatusByFd fd
      = ((r.node fd).map fun n => n.data.chatStatus).getD .clientNotFound :=
  h.distinct.status_eq fd

theorem Wf.connFd_eq (h : r.Wf) (fd : Int) :
    r.getConnFdByFd fd = ((r.node fd).map fun n => n.data.toFd).getD invalidFd :=
  h.distinct.connFd_eq fd

theorem Wf.modify (h : r.Wf) (fd : Int) {f : ClientData → ClientData}
    (hf : ∀ d, (f d).fd = d.fd) (hs : ∀ d, d.chatStatus.Stored → (f d).chatStatus.Stored) :
    (r.modify fd f).Wf where
  fds := (h.distinct.modify fd hf).fds
  addrs := (h.distinct.modify fd hf).addrs
  valid := (h.distinct.modify fd hf).valid
  fresh := forall_alter (p := fun n : ClientNode => n.addr < r.mallocs)
    (fun _ hn => by exact hn) h.fresh
  stored := forall_alter (p := fun n : ClientNode => n.data.chatStatus.Stored)
    (fun n hn => hs n.data hn) h.stored

/-! ## Registering and removing -/

/-- Whether a registration succeeds. -/
def Accepts (r : Registry) (mallocOk : Bool) : Prop :=
  r.totalAvailableClients.toNat < maxClient ∧ mallocOk = true

instance (r : Registry) (mallocOk : Bool) : Decidable (r.Accepts mallocOk) :=
  inferInstanceAs (Decidable (_ ∧ _))

/-- The node of a new connection. -/
def newNode (r : Registry) (fd : Int) : ClientNode :=
  ⟨r.mallocs, ⟨.free, fd, invalidFd, tempClientName fd⟩⟩

theorem addClientNodeToQueue_eq (r : Registry) (fd : Int) {mallocOk : Bool}
    (h : r.Accepts mallocOk) :
    r.addClientNodeToQueue fd mallocOk
      = (.succ, { clientList := r.clientList ++ [r.newNode fd]
                  totalAvailableClients := r.totalAvailableClients + 1
                  mallocs := r.mallocs + 1 }) := by
  obtain ⟨hlt, rfl⟩ := h
  have hnot : ¬ r.totalAvailableClients.toNat ≥ maxClient := Nat.not_le.mpr hlt
  simp [addClientNodeToQueue, hnot, newNode]

theorem addClientNodeToQueue_full (r : Registry) (fd : Int) {mallocOk : Bool}
    (h : ¬ r.Accepts mallocOk) :
    (r.addClientNodeToQueue fd mallocOk).1 ≠ .succ ∧
      (r.addClientNodeToQueue fd mallocOk).2 = r := by
  unfold addClientNodeToQueue
  split
  · exact ⟨by simp, rfl⟩
  · next hlt =>
      split
      · exact ⟨by simp, rfl⟩
      · next hok =>
          exact absurd ⟨Nat.not_le.mp hlt, by simpa using hok⟩ h

theorem Distinct.clientList_remove (h : r.Distinct) (fd : Int) :
    ((Write.remove fd).apply r).clientList = r.clientList.eraseP fun n => n.fd = fd := by
  simp only [Write.apply, removeClientNodeFromQueueByFd]
  split
  · next hl => rw [hl]; rfl
  · next head rest hl =>
      split
      · next hfd =>
          subst hfd
          exact (List.eraseP_of_forall_not fun n hn => by simpa using h.valid n hn).symm
      · split
        · next hhead => rw [hl, List.eraseP_cons_of_pos (by simpa using hhead)]
        · next hhead =>
            rw [hl, List.eraseP_cons_of_neg (by simpa using hhead)]
            split
            · next hnone =>
                rw [look_eq_none_iff] at hnone
                rw [List.eraseP_of_forall_not fun n hn => by simpa using hnone n hn, hl]
            · rfl

theorem Wf.clientList_remove (h : r.Wf) (fd : Int) :
    ((Write.remove fd).apply r).clientList = r.clientList.eraseP fun n => n.fd = fd :=
  h.distinct.clientList_remove fd

theorem mallocs_remove (r : Registry) (fd : Int) :
    ((Write.remove fd).apply r).mallocs = r.mallocs := by
  simp only [Write.apply, removeClientNodeFromQueueByFd]
  repeat' split
  all_goals rfl

theorem node_add {fd : Int} {mallocOk : Bool} (hfd : r.node fd = none) (g : Int) :
    ((Write.add fd mallocOk).apply r).node g
      = if g = fd ∧ r.Accepts mallocOk then some (r.newNode fd) else r.node g := by
  by_cases h : r.Accepts mallocOk
  · simp only [Write.apply, r.addClientNodeToQueue_eq fd h, and_iff_left h]
    show look ClientNode.fd g (r.clientList ++ [r.newNode fd]) = _
    have hkey : (r.newNode fd).fd = fd := rfl
    rw [look_append, hkey]
    by_cases hg : g = fd
    · subst hg
      rw [show look ClientNode.fd g r.clientList = none from hfd]
      simp
    · have hgf : fd ≠ g := fun h => hg h.symm
      simp only [if_neg hg, if_neg hgf, Option.or_none]
      rfl
  · rw [if_neg fun hg => h hg.2]
    exact congrArg (fun r : Registry => r.node g) (r.addClientNodeToQueue_full fd h).2

theorem Wf.node_remove (h : r.Wf) (fd g : Int) :
    ((Write.remove fd).apply r).node g = if g = fd then none else r.node g := by
  rw [node, h.clientList_remove]
  exact look_erase h.fds

theorem Wf.mem_remove (h : r.Wf) {fd : Int} {n : ClientNode}
    (hn : n ∈ ((Write.remove fd).apply r).clientList) : n ∈ r.clientList ∧ n.fd ≠ fd := by
  rw [h.clientList_remove] at hn
  have hmem := List.mem_of_mem_eraseP hn
  refine ⟨hmem, fun he => ?_⟩
  have hlook : look ClientNode.fd n.fd (r.clientList.eraseP fun m => m.fd = fd) = none := by
    rw [look_erase h.fds, if_pos he]
  exact look_eq_none_iff.mp hlook n hn rfl

/-- A removal that finds its node counts it off. -/
theorem Wf.total_remove (h : r.Wf) {fd : Int} (hn : (r.node fd).isSome) :
    ((Write.remove fd).apply r).totalAvailableClients = r.totalAvailableClients - 1 := by
  have hfd := h.ne_invalidFd hn
  simp only [Write.apply, removeClientNodeFromQueueByFd]
  split
  · next hl =>
      rw [node_eq_none_of_nil hl] at hn
      cases hn
  · next head rest hl =>
      rw [if_neg hfd]
      split
      · rfl
      · next hhead =>
          rw [node, hl, look_cons, if_neg hhead] at hn
          split
          · next hnone =>
              rw [hnone] at hn
              cases hn
          · rfl

theorem Wf.length_remove (h : r.Wf) {fd : Int} (hn : (r.node fd).isSome) :
    ((Write.remove fd).apply r).clientList.length + 1 = r.clientList.length := by
  obtain ⟨n, hn⟩ := Option.isSome_iff_exists.mp hn
  have hmem := look_mem hn
  rw [h.clientList_remove, List.length_eraseP_of_mem hmem (by simpa using look_key hn)]
  exact Nat.sub_add_cancel (List.length_pos_of_mem hmem)

/-- A write that respects what it has to keeps the registry well-formed. -/
theorem Wf.apply (h : r.Wf) : ∀ {w : Write}, w.Ok r → (w.apply r).Wf
  | .status fd s, hw => Write.apply_of_modifies h (w := .status fd s) trivial fun fd =>
      h.modify fd (Write.change_fd _) fun _ _ => hw
  | .toFd fd f, _ => Write.apply_of_modifies h (w := .toFd fd f) trivial fun fd =>
      h.modify fd (Write.change_fd _) fun _ hd => hd
  | .name fd s, _ => Write.apply_of_modifies h (w := .name fd s) trivial fun fd =>
      h.modify fd (Write.change_fd _) fun _ hd => hd
  | .remove fd, _ =>
      have hsub : ((Write.remove fd).apply r).clientList.Sublist r.clientList := by
        rw [h.clientList_remove]
        exact List.eraseP_sublist
      { fds := h.fds.sublist (hsub.map _)
        addrs := h.addrs.sublist (hsub.map _)
        valid := fun n hn => h.valid n (hsub.subset hn)
        fresh := fun n hn => by
          rw [mallocs_remove]
          exact h.fresh n (hsub.subset hn)
        stored := fun n hn => h.stored n (hsub.subset hn) }
  | .add fd mallocOk, hw => by
      obtain ⟨hfd, hnone⟩ := hw
      by_cases ha : r.Accepts mallocOk
      · simp only [Write.apply, r.addClientNodeToQueue_eq fd ha]
        have hnone := look_eq_none_iff.mp hnone
        refine ⟨?_, ?_, ?_, ?_, ?_⟩
        · rw [List.map_append]
          refine List.nodup_append.mpr ⟨h.fds, List.nodup_singleton _, ?_⟩
          rintro _ hf _ hg rfl
          obtain ⟨n, hn, hnf⟩ := List.mem_map.mp hf
          exact hnone n hn (hnf.trans (List.mem_singleton.mp hg))
        · rw [List.map_append]
          refine List.nodup_append.mpr ⟨h.addrs, List.nodup_singleton _, ?_⟩
          rintro _ hf _ hg rfl
          obtain ⟨n, hn, hna⟩ := List.mem_map.mp hf
          have hlt := h.fresh n hn
          rw [hna, List.mem_singleton.mp hg] at hlt
          exact Nat.lt_irrefl _ hlt
        · exact List.forall_mem_append.mpr ⟨h.valid, List.forall_mem_singleton.mpr hfd⟩
        · exact List.forall_mem_append.mpr ⟨fun n hn => Nat.lt_succ_of_lt (h.fresh n hn),
            List.forall_mem_singleton.mpr (Nat.lt_succ_self _)⟩
        · exact List.forall_mem_append.mpr ⟨h.stored, List.forall_mem_singleton.mpr (Or.inl rfl)⟩
      · rw [Write.apply, (r.addClientNodeToQueue_full fd ha).2]
        exact h

/-- Addresses are handed out upwards. -/
theorem mallocs_le_apply (r : Registry) : ∀ w : Write, r.mallocs ≤ (w.apply r).mallocs
  | .remove fd => Nat.le_of_eq (mallocs_remove r fd).symm
  | .add fd mallocOk => by
      by_cases ha : r.Accepts mallocOk
      · rw [Write.apply, r.addClientNodeToQueue_eq fd ha]
        exact Nat.le_succ _
      · exact Nat.le_of_eq (congrArg Registry.mallocs (r.addClientNodeToQueue_full fd ha).2.symm)
  | .status _ _ | .toFd _ _ | .name _ _ =>
      Write.apply_of_modifies (P := fun r' => r.mallocs ≤ r'.mallocs) (Nat.le_refl _) trivial
        fun _ => Nat.le_refl _

end Registry

end ChatSocket

/-
# `Server.FdMap` — the registry as a map from descriptors to records

Eleven functions walk the list of nodes, each with its own loop.  What they have
in common is said here: together they are an ordered map.  A getter reads the
record of a descriptor or returns what stands for none (`ReadsRecord`); whatever
changes the list changes one record of it, adds one at the end or takes one out, and
leaves all of it alone where it reports a failure (`Updates`); and the walks by
name find one node (`NamesAgree`).

`registry_is_ordered_map` is about the memory of `Server.Heap`, for any list of
records with descriptors of their own.
-/
import ChatSocket.Server.Heap

namespace ChatSocket

open Kit

namespace Heap

/-- A getter: the field of the record with a descriptor, or `absent`. -/
def ReadsRecord {β : Type} (r : Registry) (get : Int → Option β) (field : ClientData → β)
    (absent : β) : Prop :=
  (∀ n ∈ r.clientList, get n.fd = some (field n.data)) ∧
    ∀ fd, (∀ n ∈ r.clientList, n.fd ≠ fd) → get fd = some absent

/-- A change: it is reported as a success exactly if `ok`, and makes `nodes` of the list then;
else the registry is the one it was. -/
def Updates {ε : Type} (result : Option (ε × Heap)) (r : Registry) (success : ε) (ok : Prop)
    (nodes : List ClientNode) : Prop :=
  ∃ e h' r', result = some (e, h') ∧ h'.Holds r' ∧ (e = success ↔ ok) ∧
    (ok → r'.clientList = nodes) ∧ (¬ ok → r' = r)

/-- The list in which one record is changed. -/
def changed (r : Registry) (fd : Int) (f : ClientData → ClientData) : List ClientNode :=
  r.clientList.map fun n => if n.fd = fd then { n with data := f n.data } else n

/-- The walks for a name find one node: the first that has it. -/
def NamesAgree (h : Heap) (r : Registry) (fuel : Nat) (name : Option (List UInt8)) : Prop :=
  ∃ find fd status,
    h.checkClientWithSameNameExistOrNot fuel name = some find ∧
    h.getClientFdByName fuel name = some fd ∧
    h.getClientChattingStatusByName fuel name = some status ∧
    (find = .nameExists ↔ fd ≠ invalidFd) ∧ (find = .nameExists ↔ status ≠ .clientNotFound) ∧
    h.getClientChattingStatusByFd fuel fd = some status ∧
    (name.bind fun name => r.clientList.find? fun n => cstr name = n.data.name.str).map
      ClientNode.fd = if find = .nameExists then some fd else none

/-- The three functions that return a field of a record. -/
structure Reads (h : Heap) (r : Registry) (fuel : Nat) : Prop where
  status : ReadsRecord r (h.getClientChattingStatusByFd fuel) (·.chatStatus) .clientNotFound
  connFd : ReadsRecord r (h.getConnFdByFd fuel) (·.toFd) invalidFd
  name : ReadsRecord r (fun fd => (h.getClientNameByFd fuel fd).map h.strAt) (·.name.str) undefName

/-- The three functions that set a field of a record; a name is cut to its first
`MAX_CLIENT_NAME_LEN-1` characters. -/
structure Sets (h : Heap) (r : Registry) (fuel : Nat) : Prop where
  status : ∀ fd s, Updates (h.setClientChattingStatusByFd fuel fd s) r .success
    (s < chatStatusMax ∧ ∃ n ∈ r.clientList, n.fd = fd)
    (changed r fd fun d => { d with chatStatus := .ofCode s })
  toFd : ∀ myFd toFd, Updates (h.setToFdByFd fuel myFd toFd) r .success
    (∃ n ∈ r.clientList, n.fd = myFd) (changed r myFd fun d => { d with toFd := toFd })
  name : ∀ fd name, Updates (h.setNameOfClientByClientFd fuel fd name) r .succ
    (name ≠ none ∧ ∃ n ∈ r.clientList, n.fd = fd)
    (changed r fd fun d => { d with name := Registry.storeName d.name (name.getD []) })
  stored : ∀ dst name, (Registry.storeName dst name).str = (cstr name).take (maxClientNameLen - 1)

/-- A record is added at the end of the list, or the one of a descriptor is taken out of it. -/
structure AddsAndRemoves (h : Heap) (r : Registry) (fuel : Nat) : Prop where
  add : ∀ fd mallocOk, Updates (h.addClientNodeToQueue fuel (some fd) mallocOk) r .succ
    (r.Accepts mallocOk) (r.clientList ++ [r.newNode fd])
  addNull : ∀ mallocOk, h.addClientNodeToQueue fuel none mallocOk = some (.nullPtr, h)
  remove : ∀ fd, Updates (h.removeClientNodeFromQueueByFd fuel fd) r .succ
    (∃ n ∈ r.clientList, n.fd = fd) (r.clientList.filter fun n => n.fd ≠ fd)

end Heap

/-- A removal finds the record, or changes nothing. -/
theorem Registry.Distinct.remove_spec {r : Registry} (hd : r.Distinct) (fd : Int) :
    (r.node fd ≠ none → (r.removeClientNodeFromQueueByFd fd).1 = .succ) ∧
      (r.node fd = none → (r.removeClientNodeFromQueueByFd fd).1 ≠ .succ ∧
        (r.removeClientNodeFromQueueByFd fd).2 = r) := by
  have hvalid : r.node fd ≠ none → fd ≠ invalidFd := fun hn =>
    hd.ne_invalidFd (Option.isSome_iff_ne_none.mpr hn)
  obtain ⟨list, total, mallocs⟩ := r
  cases list with
  | nil =>
      exact ⟨fun hn => absurd rfl hn, fun _ => ⟨by simp [removeClientNodeFromQueueByFd], rfl⟩⟩
  | cons n rest =>
      by_cases hfd : fd = invalidFd
      · simp only [removeClientNodeFromQueueByFd, if_pos hfd]
        exact ⟨fun hn => absurd hfd (hvalid hn), fun _ => ⟨by simp, trivial⟩⟩
      by_cases hhead : n.fd = fd
      · simp only [removeClientNodeFromQueueByFd, if_neg hfd, if_pos hhead, node, look_cons]
        exact ⟨fun _ => trivial, fun hnone => absurd hnone (by simp)⟩
      · simp only [removeClientNodeFromQueueByFd, if_neg hfd, if_neg hhead, node, look_cons]
        cases look ClientNode.fd fd rest with
        | none => exact ⟨fun hn => absurd rfl hn, fun _ => ⟨by simp, rfl⟩⟩
        | some m => exact ⟨fun _ => rfl, fun hnone => absurd hnone (by simp)⟩

namespace Heap
namespace Holds

variable {h : Heap} {r : Registry} {fuel : Nat}

/-- A function that leaves what `Server.Queue` says. -/
theorem updates {ε : Type} {result : Option (ε × Heap)} {result' : ε × Registry}
    (hl : Leaves result result') {success : ε} {ok : Prop} {nodes : List ClientNode}
    (hok : ok → result'.1 = success ∧ result'.2.clientList = nodes)
    (hno : ¬ ok → result'.1 ≠ success ∧ result'.2 = r) :
    Updates result r success ok nodes := by
  obtain ⟨h', hresult, hh'⟩ := hl
  refine ⟨_, h', _, hresult, hh', ⟨fun he => ?_, fun h => (hok h).1⟩, fun h => (hok h).2,
    fun h => (hno h).2⟩
  rcases em ok with h | h
  · exact h
  · exact absurd he (hno h).1

/-- The record of a descriptor. -/
theorem readsRecord (hd : r.Distinct) {β : Type} {get : Int → Option β} {field : ClientData → β}
    {absent : β}
    (hget : ∀ fd, get fd = some (((r.node fd).map fun n => field n.data).getD absent)) :
    ReadsRecord r get field absent := by
  constructor
  · intro n hn
    rw [hget, hd.node_of_mem hn]
    rfl
  · intro fd hnone
    rw [hget, show r.node fd = none from look_eq_none_iff.mpr hnone]
    rfl

theorem registered_iff {fd : Int} : (∃ n ∈ r.clientList, n.fd = fd) ↔ r.node fd ≠ none := by
  rw [Registry.node, Ne, look_eq_none_iff]
  push Not
  rfl

/-- A setter: a failure, or the record that the walk finds is changed. -/
theorem updates_modify (hd : r.Distinct) {ε : Type} {result : Option (ε × Heap)}
    {result' : ε × Registry} (hl : Leaves result result') {success : ε} {fd : Int} {ok : Prop}
    {f : ClientData → ClientData}
    (hok : ok → r.node fd ≠ none → result' = (success, r.modify fd f))
    (hno : ¬ (ok ∧ r.node fd ≠ none) → result'.1 ≠ success ∧ result'.2 = r) :
    Updates result r success (ok ∧ ∃ n ∈ r.clientList, n.fd = fd) (changed r fd f) := by
  rw [registered_iff]
  refine updates hl (fun h => ?_) hno
  rw [hok h.1 h.2]
  exact ⟨rfl, alter_eq_map hd.fds⟩

section
variable (hh : h.Holds r) (hd : r.Distinct) (hfuel : r.clientList.length < fuel)
include hh hd hfuel

theorem reads_status :
    ReadsRecord r (h.getClientChattingStatusByFd fuel) (·.chatStatus) .clientNotFound :=
  readsRecord hd fun fd => by
    rw [hh.getClientChattingStatusByFd_eq hfuel, hd.status_eq]

theorem reads_connFd : ReadsRecord r (h.getConnFdByFd fuel) (·.toFd) invalidFd :=
  readsRecord hd fun fd => by
    rw [hh.getConnFdByFd_eq hfuel, hd.connFd_eq]

theorem reads_name :
    ReadsRecord r (fun fd => (h.getClientNameByFd fuel fd).map h.strAt) (·.name.str) undefName :=
  readsRecord hd fun fd => by
    simp only [hh.getClientNameByFd_eq hfuel, Option.map_some, Registry.getClientNameByFd_eq]
    cases hn : r.node fd with
    | none =>
        simp only [Option.map_none, Option.getD_none, ite_self]
        rfl
    | some n =>
        obtain ⟨next, hmem⟩ := hh.read (look_mem hn)
        have hfd : fd ≠ invalidFd := hd.ne_invalidFd (by rw [hn]; rfl)
        simp only [if_neg hfd, Option.map_some, Option.getD_some, Heap.strAt, hmem]

theorem updates_status (fd : Int) (s : Nat) :
    Updates (h.setClientChattingStatusByFd fuel fd s) r .success
      (s < chatStatusMax ∧ ∃ n ∈ r.clientList, n.fd = fd)
      (changed r fd fun d => { d with chatStatus := .ofCode s }) := by
  have hmax : ChatStatus.ofCode s = .max ↔ ¬ s < chatStatusMax := by
    rw [Nat.not_lt, ChatStatus.ofCode_eq_max_iff]
  refine updates_modify hd (hh.setClientChattingStatusByFd_leaves hfuel fd s) ?_ ?_
  · intro hs hn
    have hfd : fd ≠ invalidFd := hd.ne_invalidFd (Option.isSome_iff_ne_none.mpr hn)
    obtain ⟨n, hn⟩ := Option.ne_none_iff_exists'.mp hn
    simp only [Registry.setClientChattingStatusByFd, hmax, hs, if_neg hfd, hn]
    rfl
  · intro hno
    simp only [Registry.setClientChattingStatusByFd, hmax]
    split
    · exact ⟨by simp, rfl⟩
    split
    · exact ⟨by simp, rfl⟩
    · next hs _ =>
        have hn : r.node fd = none := by_contra fun hn => hno ⟨not_not.mp hs, hn⟩
        rw [hn]
        exact ⟨by simp, rfl⟩

theorem updates_toFd (myFd toFd : Int) :
    Updates (h.setToFdByFd fuel myFd toFd) r .success (∃ n ∈ r.clientList, n.fd = myFd)
      (changed r myFd fun d => { d with toFd := toFd }) := by
  have hup : Updates (h.setToFdByFd fuel myFd toFd) r .success
      (True ∧ ∃ n ∈ r.clientList, n.fd = myFd) (changed r myFd fun d => { d with toFd := toFd }) := by
    refine updates_modify hd (hh.setToFdByFd_leaves hfuel myFd toFd) ?_ ?_
    · intro _ hn
      have hfd : myFd ≠ invalidFd := hd.ne_invalidFd (Option.isSome_iff_ne_none.mpr hn)
      obtain ⟨n, hn⟩ := Option.ne_none_iff_exists'.mp hn
      simp only [Registry.setToFdByFd, if_neg hfd, hn]
    · intro hno
      have hn : r.node myFd = none := by_contra fun hn => hno ⟨trivial, hn⟩
      simp only [Registry.setToFdByFd, hn]
      split <;> exact ⟨by simp, rfl⟩
  rwa [true_and] at hup

theorem updates_name (fd : Int) (name : Option (List UInt8)) :
    Updates (h.setNameOfClientByClientFd fuel fd name) r .succ
      (name ≠ none ∧ ∃ n ∈ r.clientList, n.fd = fd)
      (changed r fd fun d => { d with name := Registry.storeName d.name (name.getD []) }) := by
  cases name with
  | none =>
      have hno : ¬ ((none : Option (List UInt8)) ≠ none ∧ ∃ n ∈ r.clientList, n.fd = fd) :=
        fun h => h.1 rfl
      obtain ⟨e, he, hnull⟩ : ∃ e, e ≠ .succ ∧
          h.setNameOfClientByClientFd fuel fd none = some (e, h) := by
        simp only [setNameOfClientByClientFd]
        split
        · exact ⟨.listEmpty, by decide, rfl⟩
        · exact ⟨.nullPtr, by decide, rfl⟩
      have hl : Leaves _ (e, r) := ⟨h, hnull, hh⟩
      exact updates hl (fun h => absurd h hno) fun _ => ⟨he, rfl⟩
  | some name =>
      refine updates_modify hd (hh.setNameOfClientByClientFd_leaves hfuel fd name) ?_ ?_
      · intro _ hn
        have hfd : fd ≠ invalidFd := hd.ne_invalidFd (Option.isSome_iff_ne_none.mpr hn)
        have hl : r.clientList ≠ [] := fun hl => hn (Registry.node_eq_none_of_nil hl fd)
        obtain ⟨n, hn⟩ := Option.ne_none_iff_exists'.mp hn
        simp only [Registry.setNameOfClientByClientFd, if_neg hl, if_neg hfd, hn]
        rfl
      · intro hno
        have hn : r.node fd = none := by_contra fun hn => hno ⟨Option.some_ne_none name, hn⟩
        simp only [Registry.setNameOfClientByClientFd, hn]
        repeat' split
        all_goals exact ⟨by simp, rfl⟩

omit hd in
theorem updates_add (fd : Int) (mallocOk : Bool) :
    Updates (h.addClientNodeToQueue fuel (some fd) mallocOk) r .succ (r.Accepts mallocOk)
      (r.clientList ++ [r.newNode fd]) := by
  refine updates (hh.addClientNodeToQueue_leaves hfuel fd mallocOk) ?_ ?_
  · intro hok
    rw [r.addClientNodeToQueue_eq fd hok]
    exact ⟨rfl, rfl⟩
  · intro hno
    simp only [Registry.addClientNodeToQueue]
    split
    · exact ⟨by simp, rfl⟩
    split
    · exact ⟨by simp, rfl⟩
    · next hlt hm => exact absurd ⟨Nat.not_le.mp hlt, by simpa using hm⟩ hno

theorem updates_remove (fd : Int) :
    Updates (h.removeClientNodeFromQueueByFd fuel fd) r .succ (∃ n ∈ r.clientList, n.fd = fd)
      (r.clientList.filter fun n => n.fd ≠ fd) := by
  rw [registered_iff, ← eraseP_eq_filter hd.fds, ← hd.clientList_remove fd]
  refine updates (hh.removeClientNodeFromQueueByFd_leaves hfuel fd) ?_ ?_
  · intro hn
    exact ⟨(hd.remove_spec fd).1 hn, rfl⟩
  · intro hno
    exact (hd.remove_spec fd).2 (not_not.mp hno)

theorem namesAgree (hs : ∀ n ∈ r.clientList, n.data.chatStatus.Stored)
    (name : Option (List UInt8)) : NamesAgree h r fuel name := by
  cases name with
  | none =>
      refine ⟨.nameFindErr, invalidFd, .clientNotFound, rfl, ?_, rfl, by decide, by decide, rfl, rfl⟩
      simp only [getClientFdByName, ite_self]
  | some name =>
      refine ⟨_, _, _, hh.checkClientWithSameNameExistOrNot_eq hfuel name,
        hh.getClientFdByName_eq hfuel name, hh.getClientChattingStatusByName_eq hfuel name, ?_⟩
      have hfind : (r.clientList.find? fun n => cstr name = n.data.name.str)
          = r.nodeByName name := by
        rw [Registry.nodeByName_eq, look]
        simp only [eq_comm]
      simp only [Registry.check_eq_nameExists_iff, hh.getClientChattingStatusByFd_eq hfuel,
        Option.bind_some, hfind, hd.statusByName_eq, Registry.getClientFdByName_eq]
      cases hn : r.nodeByName name with
      | none => simp [Registry.getClientChattingStatusByFd]
      | some n =>
          have hmem := Registry.nodeByName_mem hn
          have hstatus : r.getClientChattingStatusByFd n.fd ≠ .clientNotFound := by
            rw [hd.status_eq, hd.node_of_mem hmem]
            show n.data.chatStatus ≠ .clientNotFound
            rcases hs n hmem with h | h | h <;> rw [h] <;> decide
          simp [hd.valid n hmem, hstatus]

end

end Holds
end Heap

/-- The list of nodes is an ordered map from descriptors to records: in any memory that holds a
list of records with descriptors of their own, none of them `INVALID_FD`, and with statuses that a
client can have, each function of `server_queue.c` reads or changes the one record of the
descriptor that it is given, or does nothing. -/
theorem registry_is_ordered_map {h : Heap} {r : Registry} {fuel : Nat} (hh : h.Holds r)
    (hfds : (r.clientList.map ClientNode.fd).Nodup)
    (hvalid : ∀ n ∈ r.clientList, n.fd ≠ invalidFd)
    (hstatus : ∀ n ∈ r.clientList, n.data.chatStatus.Stored)
    (hfuel : r.clientList.length < fuel) :
    h.Reads r fuel ∧ h.Sets r fuel ∧ h.AddsAndRemoves r fuel ∧
      ∀ name, h.NamesAgree r fuel name := by
  have hd : r.Distinct := ⟨hfds, hh.addrs, hvalid⟩
  refine ⟨⟨?_, ?_, ?_⟩, ⟨?_, ?_, ?_, ?_⟩, ⟨?_, ?_, ?_⟩, ?_⟩
  · exact hh.reads_status hd hfuel
  · exact hh.reads_connFd hd hfuel
  · exact hh.reads_name hd hfuel
  · exact hh.updates_status hd hfuel
  · exact hh.updates_toFd hd hfuel
  · exact hh.updates_name hd hfuel
  · exact fun dst name => Buf.str_strncpy_put dst name
  · exact hh.updates_add hfuel
  · exact fun _ => rfl
  · exact hh.updates_remove hd hfuel
  · exact hh.namesAgree hd hfuel hstatus

/-- Two clients that have just joined, as a list. -/
def twoNodes : Registry :=
  ⟨[⟨0, ⟨.free, 4, invalidFd, Registry.tempClientName 4⟩⟩,
    ⟨1, ⟨.free, 5, invalidFd, Registry.tempClientName 5⟩⟩], 2, 2⟩

/-- The same two clients, in memory. -/
def twoCells : Heap where
  mem
    | 0 => some ⟨⟨.free, 4, invalidFd, Registry.tempClientName 4⟩, some 1⟩
    | 1 => some ⟨⟨.free, 5, invalidFd, Registry.tempClientName 5⟩, none⟩
    | _ => none
  clientList := some 0
  totalAvailableClients := 2
  mallocs := 2

theorem twoCells_holds : twoCells.Holds twoNodes where
  chain := .cons rfl (.cons rfl .nil)
  total := rfl
  mallocs := rfl
  addrs := by decide
  fresh := by decide

theorem registry_of_two :
    twoCells.Reads twoNodes 3 ∧ twoCells.Sets twoNodes 3 ∧ twoCells.AddsAndRemoves twoNodes 3 ∧
      ∀ name, twoCells.NamesAgree twoNodes 3 name :=
  registry_is_ordered_map twoCells_holds (by decide) (by decide)
    (fun n hn => by
      rcases List.mem_cons.mp hn with rfl | hn
      · exact Or.inl rfl
      · rw [List.mem_singleton.mp hn]
        exact Or.inl rfl)
    (by decide)

end ChatSocket

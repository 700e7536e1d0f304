/-
# `Server.Heap` — the list of `server_queue.c` as it lies in memory

`Server.Queue` writes the registry as a list and a walk as the search in it.
Here the nodes are cells in memory linked by `next`, and every function of
`server_queue.c` that reads or changes them is written once more, with its own
loop and its own tests, the tests for null pointers and for values out of range
among them.  `none` is a read through a pointer to no cell, or a loop that is out
of fuel.

`Heap.Holds h r`: the memory `h` holds the list of the registry `r`.  For each
function, the last section says that it then does what `Server.Queue` says, if
the fuel exceeds the length of the list: no read fails and every loop ends.
-/
import ChatSocket.Server.Acts
import ChatSocket.Kit.Chain

namespace ChatSocket

open Kit

/-- The registry in memory; `malloc` hands out the address `mallocs`. -/
structure Heap where
  mem : Memory ClientData
  clientList : Option Nat
  totalAvailableClients : UInt8
  mallocs : Nat

/-- `CHAT_STATUS_MAX`. -/
def chatStatusMax : Nat := 4

/-- The value of `client_chat_status_t` with a given number; all from `CHAT_STATUS_MAX` on are
refused alike. -/
def ChatStatus.ofCode : Nat → ChatStatus
  | 0 => free
  | 1 => busy
  | 2 => clientNotFound
  | 3 => reqPending
  | _ => max

theorem ChatStatus.ofCode_eq_max_iff : ∀ s, ofCode s = max ↔ s ≥ chatStatusMax
  | 0 | 1 | 2 | 3 => by decide
  | k + 4 => iff_of_true rfl (Nat.le_add_left 4 k)

namespace Heap

/-- `while (temp && fd != temp->data.fd) temp = temp->next;` -/
def walkFd (h : Heap) (fuel : Nat) (fd : Int) : Option (Option Nat) :=
  walk h.mem (fun d => d.fd = fd) fuel h.clientList

/-- `while (temp && strcmp(name, temp->data.name)) temp = temp->next;` -/
def walkName (h : Heap) (fuel : Nat) (name : List UInt8) : Option (Option Nat) :=
  walk h.mem (fun d => strcmp name d.name.bytes = 0) fuel h.clientList

/-- A write to `temp->data`. -/
def write (h : Heap) (a : Nat) (f : ClientData → ClientData) : Option Heap :=
  (h.mem a).map fun c =>
    { h with mem := Function.update h.mem a (some { c with val := f c.val }) }

def addClientNodeToQueue (h : Heap) (fuel : Nat) (fd : Option Int) (mallocOk : Bool) :
    Option (SrvQueueErr × Heap) :=
  match fd with
  | none => some (.nullPtr, h)
  | some fd =>
      if h.totalAvailableClients.toNat ≥ maxClient then some (.queueFull, h)
      else if !mallocOk then some (.mallocFailed, h)
      else
        let newNode : Cell ClientData :=
          ⟨⟨.free, fd, invalidFd, Registry.tempClientName fd⟩, none⟩
        let mem := Function.update h.mem h.mallocs (some newNode)
        match h.clientList with
        | none =>
            some (.succ,
              { mem := mem
                clientList := some h.mallocs
                totalAvailableClients := h.totalAvailableClients + 1
                mallocs := h.mallocs + 1 })
        | some clientList => do
            let head ← walkLast mem fuel clientList
            let c ← mem head
            some (.succ,
              { mem := Function.update mem head (some { c with next := some h.mallocs })
                clientList := some clientList
                totalAvailableClients := h.totalAvailableClients + 1
                mallocs := h.mallocs + 1 })

def removeClientNodeFromQueueByFd (h : Heap) (fuel : Nat) (fd : Int) :
    Option (SrvQueueErr × Heap) :=
  match h.clientList with
  | none => some (.listEmpty, h)
  | some clientList =>
      if fd = invalidFd then some (.nodeNotFound, h)
      else do
        let temp ← h.mem clientList
        if temp.val.fd = fd then
          some (.succ,
            { h with
              mem := Function.update h.mem clientList none
              clientList := temp.next
              totalAvailableClients := h.totalAvailableClients - 1 })
        else
          match ← walkPrev h.mem (fun d => d.fd = fd) fuel clientList temp.next with
          | (_, none) => some (.nodeNotFound, h)
          | (prev, some curr) => do
              let prevNode ← h.mem prev
              let currNode ← h.mem curr
              some (.succ,
                { h with
                  mem := Function.update
                    (Function.update h.mem prev (some { prevNode with next := currNode.next }))
                    curr none
                  totalAvailableClients := h.totalAvailableClients - 1 })

def setNameOfClientByClientFd (h : Heap) (fuel : Nat) (fd : Int) (name : Option (List UInt8)) :
    Option (SrvQueueErr × Heap) :=
  if h.clientList = none then some (.listEmpty, h)
  else
    match name with
    | none => some (.nullPtr, h)
    | some name =>
        if fd = invalidFd then some (.nameNotSet, h)
        else do
          match ← h.walkFd fuel fd with
          | none => some (.nameNotSet, h)
          | some a => do
              let h' ← h.write a fun d => { d with name := Registry.storeName d.name name }
              some (.succ, h')

def getClientNameByFd (h : Heap) (fuel : Nat) (sock : Int) : Option CharPtr :=
  if h.clientList = none then some .undefName
  else if sock = invalidFd then some .undefName
  else do
    match ← h.walkFd fuel sock with
    | none => some .undefName
    | some a => some (.nodeName a)

/-- The C string behind a name pointer. -/
def strAt (h : Heap) : CharPtr → List UInt8
  | .undefName => undefName
  | .nodeName a => ((h.mem a).map fun c => c.val.name.str).getD []

def getClientFdByName (h : Heap) (fuel : Nat) (name : Option (List UInt8)) : Option Int :=
  if h.clientList = none then some invalidFd
  else
    match name with
    | none => some invalidFd
    | some name => do
        match ← h.walkName fuel name with
        | none => some invalidFd
        | some a => do
            let c ← h.mem a
            some c.val.fd

def checkClientWithSameNameExistOrNot (h : Heap) (fuel : Nat) (name : Option (List UInt8)) :
    Option NameFind :=
  match name with
  | none => some .nameFindErr
  | some name =>
      if h.clientList = none then some .nameFindErr
      else do
        match ← h.walkName fuel name with
        | none => some .nameNotExist
        | some _ => some .nameExists

def getClientChattingStatusByName (h : Heap) (fuel : Nat) (name : Option (List UInt8)) :
    Option ChatStatus :=
  match name with
  | none => some .clientNotFound
  | some name => do
      match ← h.walkName fuel name with
      | none => some .clientNotFound
      | some a => do
          let c ← h.mem a
          some c.val.chatStatus

def getClientChattingStatusByFd (h : Heap) (fuel : Nat) (fd : Int) : Option ChatStatus :=
  if fd = invalidFd then some .clientNotFound
  else do
    match ← h.walkFd fuel fd with
    | none => some .clientNotFound
    | some a => do
        let c ← h.mem a
        some c.val.chatStatus

def setClientChattingStatusByFd (h : Heap) (fuel : Nat) (fd : Int) (chatStatus : Nat) :
    Option (ChatErr × Heap) :=
  if chatStatus ≥ chatStatusMax then some (.invalidChatStatus, h)
  else if fd = invalidFd then some (.clientNotFound, h)
  else do
    match ← h.walkFd fuel fd with
    | none => some (.clientNotFound, h)
    | some a => do
        let h' ← h.write a fun d => { d with chatStatus := .ofCode chatStatus }
        some (.success, h')

def setToFdByFd (h : Heap) (fuel : Nat) (myFd toFd : Int) : Option (ChatErr × Heap) :=
  if myFd = invalidFd then some (.clientNotFound, h)
  else do
    match ← h.walkFd fuel myFd with
    | none => some (.clientNotFound, h)
    | some a => do
        let h' ← h.write a fun d => { d with toFd := toFd }
        some (.success, h')

def getConnFdByFd (h : Heap) (fuel : Nat) (myFd : Int) : Option Int :=
  if myFd = invalidFd then some invalidFd
  else do
    match ← h.walkFd fuel myFd with
    | none => some invalidFd
    | some a => do
        let c ← h.mem a
        some c.val.toFd

/-! ## The list that is in memory -/

/-- The memory holds the list of a registry: every node lies at an address of its own, below
what `malloc` hands out next. -/
structure Holds (h : Heap) (r : Registry) : Prop where
  chain : Chain h.mem h.clientList (r.clientList.map fun n => (n.addr, n.data))
  total : h.totalAvailableClients = r.totalAvailableClients
  mallocs : h.mallocs = r.mallocs
  addrs : (r.clientList.map ClientNode.addr).Nodup
  fresh : ∀ n ∈ r.clientList, n.addr < r.mallocs

/-- The function returns what it returns on the registry, and leaves in memory what it leaves
there. -/
def Leaves {ε : Type} (result : Option (ε × Heap)) (result' : ε × Registry) : Prop :=
  ∃ h', result = some (result'.1, h') ∧ h'.Holds result'.2

namespace Holds

variable {h : Heap} {r : Registry} {fuel : Nat}

theorem leaves (hh : h.Holds r) {ε : Type} (e : ε) : Leaves (some (e, h)) (e, r) := ⟨h, rfl, hh⟩

theorem clientList_eq_none_iff (hh : h.Holds r) : h.clientList = none ↔ r.clientList = [] := by
  rw [hh.chain.eq_nil_iff, List.map_eq_nil_iff]

theorem read (hh : h.Holds r) {n : ClientNode} (hn : n ∈ r.clientList) :
    ∃ next, h.mem n.addr = some ⟨n.data, next⟩ :=
  hh.chain.read (List.mem_map_of_mem hn)

/-- A field of a record is read. -/
theorem read_field (hh : h.Holds r) {n : ClientNode} (hn : n ∈ r.clientList) {β : Type}
    (field : ClientData → β) : (h.mem n.addr).bind (fun c => some (field c.val))
      = some (field n.data) := by
  obtain ⟨next, hmem⟩ := hh.read hn
  rw [hmem]
  rfl

section
variable (hh : h.Holds r) (hfuel : r.clientList.length < fuel)
include hh hfuel

theorem walkFd_eq (fd : Int) : h.walkFd fuel fd = some ((r.node fd).map ClientNode.addr) := by
  rw [walkFd, walk_chain hh.chain _ (by rwa [List.length_map]), List.find?_map, Option.map_map]
  rfl

theorem walkName_eq (name : List UInt8) :
    h.walkName fuel name = some ((r.nodeByName name).map ClientNode.addr) := by
  rw [walkName, walk_chain hh.chain _ (by rwa [List.length_map]), List.find?_map, Option.map_map]
  rfl

end

/-- An overwritten record, found by its descriptor or by its address. -/
theorem alter_pairs {l : List ClientNode} (hnd : (l.map ClientNode.addr).Nodup) {fd : Int}
    {n : ClientNode} (hn : look ClientNode.fd fd l = some n) (f : ClientData → ClientData) :
    alter Prod.fst n.addr (fun c => (c.1, f n.data)) (l.map fun n => (n.addr, n.data))
      = (alter ClientNode.fd fd (fun n => { n with data := f n.data }) l).map
          fun n => (n.addr, n.data) := by
  induction l with
  | nil => cases hn
  | cons m l ih =>
      rw [List.map_cons, List.nodup_cons] at hnd
      rw [look_cons] at hn
      by_cases hm : m.fd = fd
      · rw [if_pos hm] at hn
        cases hn
        simp only [List.map_cons, alter, if_pos hm, if_true]
      · rw [if_neg hm] at hn
        have hne : m.addr ≠ n.addr := fun he => hnd.1 (he ▸ List.mem_map_of_mem (look_mem hn))
        simp only [List.map_cons, alter, if_neg hm, if_neg hne, ih hnd.2 hn]

/-- A write to the record that a walk for its descriptor has found. -/
theorem write (hh : h.Holds r) {fd : Int} {n : ClientNode} (hn : r.node fd = some n)
    (f : ClientData → ClientData) :
    ∃ h', h.write n.addr f = some h' ∧ h'.Holds (r.modify fd f) := by
  obtain ⟨next, hmem⟩ := hh.read (look_mem hn)
  refine ⟨{ h with mem := Function.update h.mem n.addr (some ⟨f n.data, next⟩) }, ?_, ?_⟩
  · rw [Heap.write, hmem]
    rfl
  · have hnd : ((r.clientList.map fun n => (n.addr, n.data)).map Prod.fst).Nodup := by
      rw [List.map_map]
      exact hh.addrs
    have hchain := hh.chain.write hnd hmem (f n.data)
    rw [alter_pairs hh.addrs hn f] at hchain
    exact
      { chain := hchain
        total := hh.total
        mallocs := hh.mallocs
        addrs := by
          show List.Nodup (List.map ClientNode.addr (alter _ _ _ _))
          rw [map_alter_of_eq fun _ => by rfl]
          exact hh.addrs
        fresh := forall_alter (p := fun n : ClientNode => n.addr < r.mallocs)
          (fun _ hn => by exact hn) hh.fresh }

/-- A setter that has found its record. -/
theorem leaves_write (hh : h.Holds r) {fd : Int} {n : ClientNode} (hn : r.node fd = some n)
    (f : ClientData → ClientData) {ε : Type} (e : ε) :
    Leaves ((h.write n.addr f).bind fun h' => some (e, h')) (e, r.modify fd f) := by
  obtain ⟨h', hwrite, hh'⟩ := hh.write hn f
  rw [hwrite]
  exact hh'.leaves e

/-- A node is linked behind the list. -/
theorem added (hh : h.Holds r) {h' : Heap} {n : ClientNode} (hn : n.addr = r.mallocs)
    (hchain : Chain h'.mem h'.clientList
      ((r.clientList.map fun n => (n.addr, n.data)) ++ [(n.addr, n.data)]))
    (htotal : h'.totalAvailableClients = h.totalAvailableClients + 1)
    (hmallocs : h'.mallocs = h.mallocs + 1) :
    h'.Holds { clientList := r.clientList ++ [n]
               totalAvailableClients := r.totalAvailableClients + 1
               mallocs := r.mallocs + 1 } := by
  refine ⟨?_, ?_, ?_, ?_, ?_⟩
  · show Chain h'.mem h'.clientList ((r.clientList ++ [n]).map fun n => (n.addr, n.data))
    rw [List.map_append]
    exact hchain
  · rw [htotal, hh.total]
  · rw [hmallocs, hh.mallocs]
  · rw [List.map_append]
    refine List.nodup_append.mpr ⟨hh.addrs, List.nodup_singleton _, ?_⟩
    rintro _ ha _ hb rfl
    obtain ⟨n', hn', hna⟩ := List.mem_map.mp ha
    have hlt := hh.fresh n' hn'
    rw [hna, List.mem_singleton.mp hb, hn] at hlt
    exact Nat.lt_irrefl _ hlt
  · refine List.forall_mem_append.mpr ⟨fun n' hn' => Nat.lt_succ_of_lt (hh.fresh n' hn'), ?_⟩
    exact List.forall_mem_singleton.mpr (hn ▸ Nat.lt_succ_self _)

/-- A node is cut out. -/
theorem removed (hh : h.Holds r) {h' : Heap} {l : List ClientNode} (hsub : l.Sublist r.clientList)
    (hchain : Chain h'.mem h'.clientList (l.map fun n => (n.addr, n.data)))
    (htotal : h'.totalAvailableClients = h.totalAvailableClients - 1)
    (hmallocs : h'.mallocs = h.mallocs) :
    h'.Holds { r with clientList := l, totalAvailableClients := r.totalAvailableClients - 1 } := by
  exact
    { chain := hchain
      total := by rw [htotal, hh.total]
      mallocs := by rw [hmallocs, hh.mallocs]
      addrs := hh.addrs.sublist (hsub.map _)
      fresh := fun n hn => hh.fresh n (hsub.subset hn) }

/-! ## The functions -/

section
variable (hh : h.Holds r) (hfuel : r.clientList.length < fuel)
include hh hfuel

theorem getClientChattingStatusByFd_eq (fd : Int) :
    h.getClientChattingStatusByFd fuel fd = some (r.getClientChattingStatusByFd fd) := by
  simp only [getClientChattingStatusByFd, Registry.getClientChattingStatusByFd,
    hh.walkFd_eq hfuel, Option.bind_eq_bind, Option.bind_some]
  split
  · rfl
  · cases hn : r.node fd with
    | none => rfl
    | some n => exact hh.read_field (look_mem hn) ClientData.chatStatus

theorem getConnFdByFd_eq (myFd : Int) :
    h.getConnFdByFd fuel myFd = some (r.getConnFdByFd myFd) := by
  simp only [getConnFdByFd, Registry.getConnFdByFd, hh.walkFd_eq hfuel, Option.bind_eq_bind,
    Option.bind_some]
  split
  · rfl
  · cases hn : r.node myFd with
    | none => rfl
    | some n => exact hh.read_field (look_mem hn) ClientData.toFd

theorem getClientNameByFd_eq (sock : Int) :
    h.getClientNameByFd fuel sock = some (r.getClientNameByFd sock) := by
  simp only [getClientNameByFd, Registry.getClientNameByFd, hh.walkFd_eq hfuel,
    hh.clientList_eq_none_iff, Option.bind_eq_bind, Option.bind_some]
  split
  · rfl
  split
  · rfl
  · cases r.node sock <;> rfl

theorem getClientFdByName_eq (name : List UInt8) :
    h.getClientFdByName fuel (some name) = some (r.getClientFdByName name) := by
  simp only [getClientFdByName, Registry.getClientFdByName, hh.walkName_eq hfuel,
    hh.clientList_eq_none_iff, Option.bind_eq_bind, Option.bind_some]
  split
  · rfl
  · cases hn : r.nodeByName name with
    | none => rfl
    | some n => exact hh.read_field (Registry.nodeByName_mem hn) ClientData.fd

theorem checkClientWithSameNameExistOrNot_eq (name : List UInt8) :
    h.checkClientWithSameNameExistOrNot fuel (some name)
      = some (r.checkClientWithSameNameExistOrNot name) := by
  simp only [checkClientWithSameNameExistOrNot, Registry.checkClientWithSameNameExistOrNot,
    hh.walkName_eq hfuel, hh.clientList_eq_none_iff, Option.bind_eq_bind, Option.bind_some]
  split
  · rfl
  · cases r.nodeByName name <;> rfl

theorem getClientChattingStatusByName_eq (name : List UInt8) :
    h.getClientChattingStatusByName fuel (some name)
      = some (r.getClientChattingStatusByName name) := by
  simp only [getClientChattingStatusByName, Registry.getClientChattingStatusByName,
    hh.walkName_eq hfuel, Option.bind_eq_bind, Option.bind_some]
  cases hn : r.nodeByName name with
  | none => rfl
  | some n => exact hh.read_field (Registry.nodeByName_mem hn) ClientData.chatStatus

theorem setClientChattingStatusByFd_leaves (fd : Int) (chatStatus : Nat) :
    Leaves (h.setClientChattingStatusByFd fuel fd chatStatus)
      (r.setClientChattingStatusByFd fd (.ofCode chatStatus)) := by
  simp only [setClientChattingStatusByFd, Registry.setClientChattingStatusByFd,
    ChatStatus.ofCode_eq_max_iff, hh.walkFd_eq hfuel, Option.bind_eq_bind, Option.bind_some]
  split
  · exact hh.leaves _
  split
  · exact hh.leaves _
  · cases hn : r.node fd with
    | none => exact hh.leaves _
    | some n => exact hh.leaves_write hn (fun d => { d with chatStatus := .ofCode chatStatus }) _

theorem setToFdByFd_leaves (myFd toFd : Int) :
    Leaves (h.setToFdByFd fuel myFd toFd) (r.setToFdByFd myFd toFd) := by
  simp only [setToFdByFd, Registry.setToFdByFd, hh.walkFd_eq hfuel, Option.bind_eq_bind,
    Option.bind_some]
  split
  · exact hh.leaves _
  · cases hn : r.node myFd with
    | none => exact hh.leaves _
    | some n => exact hh.leaves_write hn (fun d => { d with toFd := toFd }) _

theorem setNameOfClientByClientFd_leaves (fd : Int) (name : List UInt8) :
    Leaves (h.setNameOfClientByClientFd fuel fd (some name))
      (r.setNameOfClientByClientFd fd name) := by
  simp only [setNameOfClientByClientFd, Registry.setNameOfClientByClientFd,
    hh.clientList_eq_none_iff, hh.walkFd_eq hfuel, Option.bind_eq_bind, Option.bind_some]
  split
  · exact hh.leaves _
  split
  · exact hh.leaves _
  · cases hn : r.node fd with
    | none => exact hh.leaves _
    | some n =>
        exact hh.leaves_write hn (fun d => { d with name := Registry.storeName d.name name }) _

theorem addClientNodeToQueue_leaves (fd : Int) (mallocOk : Bool) :
    Leaves (h.addClientNodeToQueue fuel (some fd) mallocOk)
      (r.addClientNodeToQueue fd mallocOk) := by
  simp only [addClientNodeToQueue, Registry.addClientNodeToQueue, hh.total]
  split
  · exact hh.leaves _
  split
  · exact hh.leaves _
  · have hfresh : h.mallocs ∉ (r.clientList.map fun n => (n.addr, n.data)).map Prod.fst := by
      rw [List.map_map, hh.mallocs]
      intro hmem
      obtain ⟨n, hn, he⟩ := List.mem_map.mp hmem
      exact Nat.lt_irrefl _ (he ▸ hh.fresh n hn)
    cases hlist : h.clientList with
    | none =>
        have hnil := hh.clientList_eq_none_iff.mp hlist
        refine ⟨_, rfl, hh.added (n := ⟨r.mallocs, _⟩) rfl ?_ (by rw [hh.total]) rfl⟩
        rw [hnil, hh.mallocs]
        exact .cons (Function.update_self _ _ _) .nil
    | some head =>
        have hnd : ((r.clientList.map fun n => (n.addr, n.data)).map Prod.fst).Nodup := by
          rw [List.map_map]
          exact hh.addrs
        have hle : (r.clientList.map fun n => (n.addr, n.data)).length ≤ fuel := by
          simpa using Nat.le_of_lt hfuel
        obtain ⟨z, c, hwalk, -, hc, hchain⟩ := hh.chain.link hnd hfresh hlist
          (y := ⟨.free, fd, invalidFd, Registry.tempClientName fd⟩) hle
        simp only [hwalk, hc, Option.bind_eq_bind, Option.bind_some]
        refine ⟨_, rfl, hh.added (n := ⟨r.mallocs, _⟩) rfl ?_ (by rw [hh.total]) rfl⟩
        rw [hlist] at hchain
        rw [← hh.mallocs]
        exact hchain

theorem removeClientNodeFromQueueByFd_leaves (fd : Int) :
    Leaves (h.removeClientNodeFromQueueByFd fuel fd) (r.removeClientNodeFromQueueByFd fd) := by
  have hremoved := @removed h r hh
  have hchain := hh.chain
  have haddrs := hh.addrs
  have hleaves : ∀ e : SrvQueueErr, Leaves (some (e, h)) (e, r) := hh.leaves
  obtain ⟨list, total, mallocs⟩ := r
  simp only [removeClientNodeFromQueueByFd, Registry.removeClientNodeFromQueueByFd]
  cases list with
  | nil =>
      have hlist : h.clientList = none := hh.clientList_eq_none_iff.mpr rfl
      simp only [hlist]
      exact hleaves _
  | cons n rest =>
      cases hp : h.clientList with
      | none => exact absurd (hh.clientList_eq_none_iff.mp hp) (by simp)
      | some head =>
          simp only
          split
          · exact hleaves _
          rw [hp, List.map_cons] at hchain
          cases hchain with
          | @cons _ _ next _ hmem htail =>
              simp only [hmem, Option.bind_eq_bind, Option.bind_some]
              split
              · next hfd =>
                  rw [if_pos (show n.fd = fd from hfd)]
                  have haddr := (List.nodup_cons.mp haddrs).1
                  refine ⟨_, rfl, @hremoved _ rest (List.sublist_cons_self _ _) ?_ rfl rfl⟩
                  refine htail.frame ?_ none
                  rw [List.map_map]
                  exact haddr
              · next hfd =>
                  have hfd : n.fd ≠ fd := hfd
                  rw [if_neg hfd]
                  have hnd : (n.addr :: (rest.map fun n => (n.addr, n.data)).map Prod.fst).Nodup := by
                    rw [List.map_map]
                    exact haddrs
                  rcases htail.unlink (fun d => d.fd = fd) hmem hnd
                    (by rw [List.length_map]; exact Nat.lt_of_succ_lt hfuel) with
                    ⟨hnone, z, hwalk⟩ | ⟨z, d, c, e, hwalk, -, -, hz, hd, hde, hfound, hcut⟩
                  · have hlook : look ClientNode.fd fd rest = none := by
                      rw [look_eq_none_iff]
                      intro m hm
                      exact of_decide_eq_false (hnone (m.addr, m.data) (List.mem_map_of_mem hm))
                    simp only [hwalk, hlook, Option.bind_some]
                    exact hleaves _
                  · obtain ⟨m, hm, hme⟩ := List.mem_map.mp hde
                    have hlook : look ClientNode.fd fd rest ≠ none := by
                      intro hnone
                      refine look_eq_none_iff.mp hnone m hm ?_
                      rw [ClientNode.fd, (Prod.mk.inj hme).2]
                      simpa using hfound
                    obtain ⟨m', hm'⟩ := Option.ne_none_iff_exists'.mp hlook
                    simp only [hwalk, hz, hd, hm', Option.bind_some]
                    refine ⟨_, rfl, @hremoved _ (n :: rest.eraseP fun n => n.fd = fd)
                      (List.eraseP_sublist.cons_cons n) ?_ rfl rfl⟩
                    rw [List.eraseP_map] at hcut
                    exact hcut

end

end Holds

end Heap

end ChatSocket

/-
# `Server.Nodes` — what a handler leaves of the nodes

A handler rewrites nodes; it neither registers nor removes any.  Its acts are
`Inner`, and after inner acts the list has the same nodes in the same order, each
under its address and its descriptor (`SameNodes`).  `Named` is the one thing
said here of what the nodes hold: a stored name ends within its array.
-/
import ChatSocket.Server.Points
import ChatSocket.Server.Refines
import Mathlib.Data.Nat.Digits.Defs

namespace ChatSocket

open Kit

/-- A write that registers nobody and removes nobody. -/
def Write.Inner : Write → Prop
  | add _ _ | remove _ => False
  | status _ s => s.Stored
  | name _ _ | toFd _ _ => True

def Act.Inner : Act → Prop
  | wrote w => w.Inner
  | sent _ _ => True

theorem Write.Inner.plain : ∀ {w : Write}, w.Inner → w.Plain
  | .status _ _, h => h
  | .name _ _, _ | .toFd _ _, _ => trivial

theorem Write.Inner.modifies : ∀ {w : Write}, w.Inner → w.Modifies
  | .status _ _, _ | .name _ _, _ | .toFd _ _, _ => trivial

theorem Act.Inner.plain : ∀ {a : Act}, a.Inner → a.Plain
  | .wrote _, h => Write.Inner.plain h
  | .sent _ _, _ => trivial

/-- Every step of a handler is inner. -/
theorem Point.inner_acts (fd : Int) (r : Registry) (p : Point) :
    ∀ a ∈ p.acts fd r, a.Inner := by
  cases p with
  | setName | accept =>
      simp only [acts]
      split <;> simp [Act.Inner, Write.Inner, ChatStatus.Stored]
  | _ => simp [acts, Act.Inner, Write.Inner, ChatStatus.Stored]

/-- So are those of the end of a connection, but for the removal. -/
theorem inner_closedActs (r : Registry) (fd : Int) :
    ∀ a ∈ (if r.getConnFdByFd fd ≠ invalidFd ∧
        r.getClientChattingStatusByFd (r.getConnFdByFd fd) ≠ .free then
      [.wrote (.status (r.getConnFdByFd fd) .free), .wrote (.toFd fd invalidFd),
       .sent (r.getConnFdByFd fd) (.withText .clientTermination (r.nameOf fd))]
    else []), Act.Inner a := by
  split <;> simp [Act.Inner, Write.Inner, ChatStatus.Stored]

/-! ## The same nodes -/

/-- What tells nodes apart. -/
def ClientNode.key (n : ClientNode) : Nat × Int := (n.addr, n.fd)

structure Registry.SameNodes (r r' : Registry) : Prop where
  nodes : r'.clientList.map ClientNode.key = r.clientList.map ClientNode.key
  total : r'.totalAvailableClients = r.totalAvailableClients
  mallocs : r'.mallocs = r.mallocs

namespace Registry

variable {r r' r'' : Registry}

theorem SameNodes.refl (r : Registry) : r.SameNodes r := ⟨rfl, rfl, rfl⟩

theorem SameNodes.trans (h : r.SameNodes r') (h' : r'.SameNodes r'') : r.SameNodes r'' :=
  ⟨h'.nodes.trans h.nodes, h'.total.trans h.total, h'.mallocs.trans h.mallocs⟩

theorem SameNodes.fds (h : r.SameNodes r') :
    r'.clientList.map ClientNode.fd = r.clientList.map ClientNode.fd := by
  have hsnd := congrArg (List.map Prod.snd) h.nodes
  rwa [List.map_map, List.map_map] at hsnd

theorem SameNodes.addrs (h : r.SameNodes r') :
    r'.clientList.map ClientNode.addr = r.clientList.map ClientNode.addr := by
  have hfst := congrArg (List.map Prod.fst) h.nodes
  rwa [List.map_map, List.map_map] at hfst

theorem SameNodes.length (h : r.SameNodes r') : r'.clientList.length = r.clientList.length := by
  have hlen := congrArg List.length h.nodes
  rwa [List.length_map, List.length_map] at hlen

/-- A node was there before, under its address and descriptor. -/
theorem SameNodes.exists_mem (h : r.SameNodes r') {n : ClientNode} (hn : n ∈ r'.clientList) :
    ∃ m ∈ r.clientList, m.addr = n.addr ∧ m.fd = n.fd := by
  have hmem := List.mem_map_of_mem (f := ClientNode.key) hn
  rw [h.nodes] at hmem
  obtain ⟨m, hm, he⟩ := List.mem_map.mp hmem
  exact ⟨m, hm, congrArg Prod.fst he, congrArg Prod.snd he⟩

theorem SameNodes.exists_mem_after (h : r.SameNodes r') {n : ClientNode}
    (hn : n ∈ r.clientList) : ∃ m ∈ r'.clientList, m.addr = n.addr ∧ m.fd = n.fd := by
  have hmem := List.mem_map_of_mem (f := ClientNode.key) hn
  rw [← h.nodes] at hmem
  obtain ⟨m, hm, he⟩ := List.mem_map.mp hmem
  exact ⟨m, hm, congrArg Prod.fst he, congrArg Prod.snd he⟩

theorem node_isSome_iff (r : Registry) (fd : Int) :
    (r.node fd).isSome ↔ fd ∈ r.clientList.map ClientNode.fd := by
  simp [node, look]

theorem SameNodes.node_isSome (h : r.SameNodes r') (fd : Int) :
    (r'.node fd).isSome = (r.node fd).isSome := by
  rw [Bool.eq_iff_iff, node_isSome_iff, node_isSome_iff, h.fds]

theorem sameNodes_modify (r : Registry) (fd : Int) {f : ClientData → ClientData}
    (hf : ∀ d, (f d).fd = d.fd) : r.SameNodes (r.modify fd f) :=
  ⟨map_alter_of_eq (fun n => congrArg (Prod.mk n.addr) (hf n.data)) _, rfl, rfl⟩

theorem sameNodes_apply {w : Write} (hw : w.Inner) (r : Registry) : r.SameNodes (w.apply r) :=
  Write.apply_of_modifies (.refl r) hw.modifies fun fd => sameNodes_modify r fd w.change_fd

theorem sameNodes_replay : ∀ (acts : List Act) (r : Registry), (∀ a ∈ acts, a.Inner) →
    r.SameNodes (replay r acts)
  | [], r, _ => .refl r
  | .sent _ _ :: acts, r, h => sameNodes_replay acts r (List.forall_mem_cons.mp h).2
  | .wrote w :: acts, r, h => by
      obtain ⟨hw, hacts⟩ := List.forall_mem_cons.mp h
      exact (sameNodes_apply hw r).trans (sameNodes_replay acts (w.apply r) hacts)

/-- Inner acts keep a registry well-formed. -/
theorem Wf.replay_inner (h : r.Wf) {acts : List Act} (hacts : ∀ a ∈ acts, a.Inner) :
    (replay r acts).Wf :=
  (h.replay_plain acts fun a ha => (hacts a ha).plain).1

/-- A descriptor finds the node it found. -/
theorem Wf.addr_node (hr : r.Wf) (h : r.SameNodes r') {fd : Int} {n' : ClientNode}
    (hn' : r'.node fd = some n') : ∃ n, r.node fd = some n ∧ n.addr = n'.addr := by
  obtain rfl : n'.fd = fd := look_key hn'
  obtain ⟨n, hn, ha, hfd⟩ := h.exists_mem (look_mem hn')
  exact ⟨n, hfd ▸ hr.node_of_mem hn, ha⟩

/-! ## Stored names end -/

/-- Every stored name is NUL-terminated within its array. -/
def Named (r : Registry) : Prop := ∀ n ∈ r.clientList, (0 : UInt8) ∈ n.data.name.bytes

theorem zero_mem_storeName (dst : Buf maxClientNameLen) (name : List UInt8) :
    (0 : UInt8) ∈ (storeName dst name).bytes := by
  have hbytes : (storeName dst name).bytes
      = (cstr name).take (maxClientNameLen - 1) ++
        0 :: List.replicate (maxClientNameLen - 1 - strlen name) 0 :=
    Buf.bytes_strncpy_put dst name
  rw [hbytes]
  exact List.mem_append_right _ List.mem_cons_self

/-- The generated name of a descriptor that is an `int` fits. -/
theorem zero_mem_tempClientName {fd : Int} (h0 : 0 ≤ fd) (h1 : fd < 2 ^ 31) :
    (0 : UInt8) ∈ (tempClientName fd).bytes := by
  obtain ⟨k, rfl⟩ := Int.eq_ofNat_of_zero_le h0
  have hk : k < 10 ^ 10 := by omega
  have hdigits : (ascii (toString (k : Int))).length ≤ 10 := by
    rw [ascii, List.length_map]
    exact Nat.repr_length k 10 (by decide) hk
  have hlen : (cstr (ascii "temp_client_name_" ++ ascii (toString (k : Int))) ++ [0]).length ≤
      maxClientNameLen := by
    have hcstr := (List.takeWhile_sublist (p := fun b : UInt8 => decide (b ≠ 0))
      (l := ascii "temp_client_name_" ++ ascii (toString (k : Int)))).length_le
    rw [List.length_append] at hcstr ⊢
    have htext : (ascii "temp_client_name_").length = 17 := by decide
    have hone : ([0] : List UInt8).length = 1 := rfl
    show (cstr _).length + 1 ≤ 64
    simp only [cstr]
    omega
  rw [tempClientName, Buf.strcpy, Buf.bytes_write hlen]
  exact List.mem_append_left _ (List.mem_append_right _ List.mem_cons_self)

theorem Named.modify (h : r.Named) (fd : Int) {f : ClientData → ClientData}
    (hf : ∀ d, (0 : UInt8) ∈ d.name.bytes → (0 : UInt8) ∈ (f d).name.bytes) :
    (r.modify fd f).Named :=
  forall_alter (p := fun n : ClientNode => (0 : UInt8) ∈ n.data.name.bytes)
    (fun n hn => hf n.data hn) h

theorem zero_mem_change (w : Write) {d : ClientData} (hd : (0 : UInt8) ∈ d.name.bytes) :
    (0 : UInt8) ∈ (w.change d).name.bytes := by
  cases w with
  | name fd s => exact zero_mem_storeName d.name s
  | _ => exact hd

theorem mem_of_mem_remove {fd : Int} {n : ClientNode}
    (hn : n ∈ ((Write.remove fd).apply r).clientList) : n ∈ r.clientList := by
  simp only [Write.apply, removeClientNodeFromQueueByFd] at hn
  split at hn
  · exact hn
  · next head rest hlist =>
      rw [hlist]
      split at hn
      · exact hlist ▸ hn
      split at hn
      · exact List.mem_cons_of_mem head hn
      · split at hn
        · exact hlist ▸ hn
        · rcases List.mem_cons.mp hn with rfl | hn
          · exact List.mem_cons_self
          · exact List.mem_cons_of_mem head (List.mem_of_mem_eraseP hn)

theorem Named.apply (h : r.Named) : ∀ {w : Write}, w.Plain → (w.apply r).Named
  | .remove _, _ => fun n hn => h n (mem_of_mem_remove hn)
  | .status fd s, _ => Write.apply_of_modifies h (w := .status fd s) trivial fun fd =>
      h.modify fd fun _ => zero_mem_change _
  | .toFd fd f, _ => Write.apply_of_modifies h (w := .toFd fd f) trivial fun fd =>
      h.modify fd fun _ => zero_mem_change _
  | .name fd s, _ => Write.apply_of_modifies h (w := .name fd s) trivial fun fd =>
      h.modify fd fun _ => zero_mem_change _

theorem Named.replay_plain : ∀ (acts : List Act) {r : Registry}, r.Named →
    (∀ a ∈ acts, a.Plain) → (replay r acts).Named
  | [], _, h, _ => h
  | .sent _ _ :: acts, r, h, hacts =>
      Named.replay_plain acts (r := r) h (List.forall_mem_cons.mp hacts).2
  | .wrote _ :: acts, _, h, hacts =>
      Named.replay_plain acts (h.apply (List.forall_mem_cons.mp hacts).1)
        (List.forall_mem_cons.mp hacts).2

theorem Named.replay_inner {acts : List Act} (h : r.Named) (hacts : ∀ a ∈ acts, a.Inner) :
    (replay r acts).Named := Named.replay_plain acts h fun a ha => (hacts a ha).plain

/-- A new client under a descriptor that is an `int` gets a name that ends. -/
theorem Named.register (h : r.Named) {fd : Int} (h0 : 0 ≤ fd) (h1 : fd < 2 ^ 31) (ok : Bool) :
    ((Write.add fd ok).apply r).Named := by
  rcases em (r.Accepts ok) with ha | ha
  · rw [Write.apply, r.addClientNodeToQueue_eq fd ha]
    exact List.forall_mem_append.mpr
      ⟨h, List.forall_mem_singleton.mpr (zero_mem_tempClientName h0 h1)⟩
  · rw [Write.apply, (r.addClientNodeToQueue_full fd ha).2]
    exact h

/-! ## Links

`Q` is said of every link, from the descriptor of its node to `to_fd`. -/

/-- Every link is as `Q` says. -/
def Links (Q : Int → Int → Prop) (r : Registry) : Prop := ∀ n ∈ r.clientList, Q n.fd n.data.toFd

end Registry

/-- The write makes no other links than `Q` allows. -/
def Write.Links (Q : Int → Int → Prop) : Write → Prop
  | add fd _ => Q fd invalidFd
  | toFd myFd f => myFd ≠ invalidFd → Q myFd f
  | remove _ | name _ _ | status _ _ => True

/-- The client to which a section links its own. -/
def Point.links? : Point → Option Int
  | link _ _ connFd | pair connFd => some connFd
  | _ => none

section Links
variable {Q : Int → Int → Prop} {r : Registry}

theorem links_modify (hl : r.Links Q) (fd : Int) {f : ClientData → ClientData}
    (hf : ∀ d, (f d).fd = d.fd) (hto : ∀ d, d.fd = fd → Q d.fd d.toFd → Q d.fd (f d).toFd) :
    (r.modify fd f).Links Q :=
  forall_alter_of_key (p := fun n : ClientNode => Q n.fd n.data.toFd)
    (fun n hk hq => by
      show Q (f n.data).fd (f n.data).toFd
      rw [hf]
      exact hto n.data hk hq) hl

theorem links_apply (hr : r.Wf) (hl : r.Links Q) : ∀ {w : Write}, w.Links Q →
    (w.apply r).Links Q
  | .status fd s, _ => Write.apply_of_modifies hl (w := .status fd s) trivial fun fd =>
      links_modify hl fd (Write.change_fd _) fun _ _ hq => hq
  | .name fd s, _ => Write.apply_of_modifies hl (w := .name fd s) trivial fun fd =>
      links_modify hl fd (Write.change_fd _) fun _ _ hq => hq
  | .toFd fd f, hw => by
      rcases eq_or_ne fd invalidFd with rfl | hfd
      · exact hl
      · rw [Write.apply_toFd r hfd]
        exact links_modify hl fd (fun _ => by rfl) fun d hd _ => by
          rw [hd]
          exact hw hfd
  | .remove fd, _ => fun n hmem => hl n (hr.mem_remove hmem).1
  | .add fd ok, hw => by
      rcases em (r.Accepts ok) with ha | ha
      · rw [Write.apply, r.addClientNodeToQueue_eq fd ha]
        exact List.forall_mem_append.mpr ⟨hl, List.forall_mem_singleton.mpr hw⟩
      · rw [Write.apply, (r.addClientNodeToQueue_full fd ha).2]
        exact hl

theorem links_replay : ∀ (acts : List Act) {r : Registry}, r.Wf → r.Links Q →
    (∀ a ∈ acts, a.Inner) → (∀ w, .wrote w ∈ acts → w.Links Q) → (replay r acts).Links Q
  | [], _, _, hl, _, _ => hl
  | .sent _ _ :: acts, r, hr, hl, hin, hw =>
      links_replay acts (r := r) hr hl (List.forall_mem_cons.mp hin).2
        fun w hm => hw w (List.mem_cons_of_mem _ hm)
  | .wrote w :: acts, _, hr, hl, hin, hw =>
      have hinner := List.forall_mem_cons.mp hin
      links_replay acts (hr.apply (hinner.1.plain.ok _))
        (links_apply hr hl (hw w List.mem_cons_self)) hinner.2
        fun w' hm => hw w' (List.mem_cons_of_mem _ hm)

/-- The links of a section are those to its peer, both ways, and those that are cut. -/
theorem Point.links_acts {fd : Int} {p : Point} (hfd : fd ≠ invalidFd)
    (hcut : ∀ g, g ≠ invalidFd → Q g invalidFd) (hnew : ∀ g, p.links? = some g → Q fd g ∧ Q g fd) :
    ∀ w, .wrote w ∈ p.acts fd r → w.Links Q := by
  cases p with
  | setName msg =>
      rw [acts]
      split <;> simp [Write.Links]
  | accept =>
      rw [acts]
      split <;> simp [Write.Links, hfd, hcut]
  | link name myName connFd =>
      obtain ⟨hto, hback⟩ := hnew connFd rfl
      simp [acts, Write.Links, hto, hback]
  | pair connFd =>
      obtain ⟨hto, hback⟩ := hnew connFd rfl
      simp [acts, Write.Links, hto, hback]
  | disconnect connFd => simpa [acts, Write.Links, hfd, hcut] using hcut connFd
  | _ => simp [acts, Write.Links]

end Links

end ChatSocket

/-
# `Server.Listing` — the list of clients, and what its reader makes of it

`get_client_list` writes the stored names one after the other, a space behind
each, and stops before the text would fill the `MAX_MSG_LEN` bytes of a message.
Splitting at the spaces gives the names back, all of them and in their order,
exactly if no name has a space in it and the text of all of them is short enough.

What is written is the longest such text that fits, and no `strncat` of the loop
writes past the array: `client_list_longest`.
-/
import ChatSocket.Server.Nodes
import ChatSocket.Kit.Fields

namespace ChatSocket

open Kit Registry

/-- `' '`. -/
def space : UInt8 := 0x20

/-- The stored names, in the order of registration. -/
def Registry.storedNames (r : Registry) : List (List UInt8) :=
  r.clientList.map fun n => n.data.name.str

/-- No stored name has a space in it, and all of them fit into one message. -/
def Registry.Listable (r : Registry) : Prop :=
  (∀ name ∈ r.storedNames, space ∉ name) ∧
    (r.storedNames.map fun name => name.length + 1).sum < maxMsgLen

/-- One round of the loop in `get_client_list`, for a name that fits: the lengths after the name
and after the space, and the text. -/
theorem str_append_name {list : Buf maxMsgLen} {listLen : Nat} {name : List UInt8}
    (hlist : list.str.length = listLen) (hfits : listLen + strlen name + 1 < maxMsgLen) :
    let list₁ := list.strncat name (maxMsgLen - listLen - 1)
    let list₂ := list₁.strncat (ascii " ") (maxMsgLen - (listLen + strlen name) - 1)
    strlen list₁.bytes = listLen + strlen name ∧ list₂.str = list.str ++ cstr name ++ [space] ∧
      list₂.str.length = listLen + strlen name + 1 := by
  intro list₁ list₂
  have hname : list₁.str = list.str ++ cstr name := Buf.str_strncat (by omega) (by omega)
  have hlen : list₁.str.length = listLen + strlen name := by
    rw [hname, List.length_append, hlist]
    rfl
  have hspace : strlen (ascii " ") = 1 := rfl
  have hstr : list₂.str = list₁.str ++ [space] := Buf.str_strncat (by omega) (by omega)
  refine ⟨hlen, by rw [hstr, hname], ?_⟩
  rw [hstr, List.length_append, hlen, List.length_singleton]

/-- The loop of `get_client_list` writes the names that fit, each with a space behind it. -/
theorem str_getClientListLoop : ∀ (l : List ClientNode) {list : Buf maxMsgLen} {listLen : Nat},
    list.str.length = listLen → listLen < maxMsgLen →
    (getClientListLoop l list listLen).str
      = list.str ++ terminated space (fitting maxMsgLen listLen (l.map fun n => n.data.name.str))
  | [], _, _, _, _ => (List.append_nil _).symm
  | n :: rest, list, listLen, hlist, _ => by
      have hname : n.data.name.str.length = strlen n.data.name.bytes := rfl
      rw [List.map_cons, fitting, getClientListLoop, hname]
      split
      · exact (List.append_nil _).symm
      · next hfits =>
          have hfits := Nat.not_le.mp hfits
          obtain ⟨hlen, hstr, hnext⟩ := str_append_name hlist hfits
          simp only [hlen]
          rw [if_pos hfits, str_getClientListLoop rest hnext hfits, hstr, terminated_cons,
            List.append_assoc, List.append_assoc, List.append_assoc]
          rfl

/-! ## Every write of the loop -/

/-- A call `strncat(list, src, list_capacity - list_len - 1)`. -/
structure Append where
  list : Buf maxMsgLen
  src : List UInt8
  listLen : Nat

/-- The array after the call. -/
def Append.result (a : Append) : Buf maxMsgLen := a.list.strncat a.src (maxMsgLen - a.listLen - 1)

/-- `list_len` is the length of the text, the subtraction stays above zero, both strings end in
their memory, and the text, what is put behind it and the NUL stay inside the array. -/
structure Append.InOrder (a : Append) : Prop where
  tracked : a.listLen = a.list.str.length
  noUnderflow : a.listLen + 1 ≤ maxMsgLen
  listEnds : (0 : UInt8) ∈ a.list.bytes
  srcEnds : (0 : UInt8) ∈ a.src
  inside : a.list.str.length + min (strlen a.src) (maxMsgLen - a.listLen - 1) + 1 ≤ maxMsgLen

/-- The loop of `get_client_list` with its calls of `strncat` written down: the calls, `list` and
`list_len`. -/
def getClientListRun : List ClientNode → Buf maxMsgLen → Nat → List Append × Buf maxMsgLen × Nat
  | [], list, listLen => ([], list, listLen)
  | n :: rest, list, listLen =>
      let nameLen := strlen n.data.name.bytes
      if listLen + nameLen + 1 ≥ maxMsgLen then ([], list, listLen)
      else
        let name : Append := ⟨list, n.data.name.bytes, listLen⟩
        let listLen₁ := strlen name.result.bytes
        if listLen₁ + 1 < maxMsgLen then
          let blank : Append := ⟨name.result, ascii " " ++ [0], listLen₁⟩
          let run := getClientListRun rest blank.result (listLen₁ + 1)
          (name :: blank :: run.1, run.2)
        else
          let run := getClientListRun rest name.result listLen₁
          (name :: run.1, run.2)

theorem getClientListRun_list : ∀ (l : List ClientNode) (list : Buf maxMsgLen) (listLen : Nat),
    (getClientListRun l list listLen).2.1 = getClientListLoop l list listLen
  | [], _, _ => rfl
  | n :: rest, list, listLen => by
      rw [getClientListRun, getClientListLoop]
      split
      · rfl
      by_cases hroom : strlen (Append.result ⟨list, n.data.name.bytes, listLen⟩).bytes + 1
          < maxMsgLen
      · rw [if_pos hroom]
        exact (getClientListRun_list rest _ _).trans (if_pos hroom).symm
      · rw [if_neg hroom]
        exact (getClientListRun_list rest _ _).trans (if_neg hroom).symm

/-- A call with room for the whole of what is put behind the text. -/
theorem inOrder_of_fits {list : Buf maxMsgLen} {src : List UInt8} {listLen : Nat}
    (hlist : list.str.length = listLen) (hfits : listLen + strlen src < maxMsgLen)
    (hsrc : (0 : UInt8) ∈ src) : (⟨list, src, listLen⟩ : Append).InOrder where
  tracked := hlist.symm
  noUnderflow := by
    show listLen + 1 ≤ maxMsgLen
    omega
  listEnds := Buf.zero_mem_of_length_str (b := list) (by omega)
  srcEnds := hsrc
  inside := by
    show list.str.length + min (strlen src) (maxMsgLen - listLen - 1) + 1 ≤ maxMsgLen
    omega

/-- Every call is in order, and at the end `list_len` is the length of the text again. -/
theorem inOrder_getClientListRun : ∀ {l : List ClientNode} {list : Buf maxMsgLen} {listLen : Nat},
    (∀ n ∈ l, (0 : UInt8) ∈ n.data.name.bytes) → list.str.length = listLen →
    listLen < maxMsgLen →
    (∀ a ∈ (getClientListRun l list listLen).1, a.InOrder) ∧
      (getClientListRun l list listLen).2.2 = (getClientListRun l list listLen).2.1.str.length ∧
      (getClientListRun l list listLen).2.2 < maxMsgLen
  | [], _, _, _, hlist, hlt => ⟨fun _ ha => (nomatch ha), hlist.symm, hlt⟩
  | n :: rest, list, listLen, hnames, hlist, hlt => by
      obtain ⟨hn, hrest⟩ := List.forall_mem_cons.mp hnames
      rw [getClientListRun]
      split
      · exact ⟨fun _ ha => (nomatch ha), hlist.symm, hlt⟩
      next hfull =>
      have hfits : listLen + strlen n.data.name.bytes + 1 < maxMsgLen := Nat.not_le.mp hfull
      obtain ⟨hlen, -, hnext⟩ := str_append_name hlist hfits
      have hres : strlen (Append.result ⟨list, n.data.name.bytes, listLen⟩).bytes
          = listLen + strlen n.data.name.bytes := hlen
      -- the room for the space is there, so the second test of the loop never fails
      simp only [hres, if_pos hfits]
      have hone : strlen (ascii " " ++ [0]) = 1 := rfl
      have hname := inOrder_of_fits hlist (by omega) hn
      have hblank : (⟨_, ascii " " ++ [0], _⟩ : Append).InOrder :=
        inOrder_of_fits hlen (by omega) (by decide)
      obtain ⟨hcalls, hend, hroom⟩ := inOrder_getClientListRun hrest hnext hfits
      refine ⟨?_, hend, hroom⟩
      exact List.forall_mem_cons.mpr ⟨hname, List.forall_mem_cons.mpr ⟨hblank, hcalls⟩⟩

/-- The text of the reply. -/
theorem str_getClientList (r : Registry) :
    (r.getClientList (.zero _)).2.str = terminated space (fitting maxMsgLen 0 r.storedNames) := by
  have hzero : (Buf.zero maxMsgLen).str = [] := rfl
  rw [getClientList, storedNames]
  split
  · next hnil => rw [hnil]; rfl
  · exact str_getClientListLoop r.clientList (congrArg List.length hzero) (by decide)

/-- For every registry whose stored names end, `get_client_list` writes the longest text of names,
each with a space behind it, that fits with its NUL, and none of its writes leaves the array. -/
theorem client_list_longest {r : Registry} (hr : r.Named) :
    let run := getClientListRun r.clientList (.zero _) 0
    run.2.1 = (r.getClientList (.zero _)).2 ∧
      (∀ a ∈ run.1, a.InOrder) ∧ run.2.2 = run.2.1.str.length ∧ (0 : UInt8) ∈ run.2.1.bytes ∧
      ∃ k, IsGreatest {k | k ≤ r.clientList.length ∧
          (terminated space (r.storedNames.take k)).length ≤ maxMsgLen - 1} k ∧
        run.2.1.str = terminated space (r.storedNames.take k) := by
  intro run
  have hzero : (Buf.zero maxMsgLen).str = [] := rfl
  have hlist : run.2.1 = (r.getClientList (.zero _)).2 := by
    rw [getClientListRun_list, getClientList]
    split
    · next hnil => rw [hnil]; rfl
    · rfl
  have hempty : (Buf.zero maxMsgLen).str.length = 0 := congrArg List.length hzero
  obtain ⟨hcalls, hlen, hroom⟩ := inOrder_getClientListRun hr hempty (by decide)
  obtain ⟨k, hk, htake⟩ :=
    @fitting_eq_take _ space r.storedNames maxMsgLen 0 (by decide)
  refine ⟨hlist, hcalls, hlen, Buf.zero_mem_of_length_str (hlen ▸ hroom), k, ?_, ?_⟩
  · have hset : {k | k ≤ r.storedNames.length ∧
        0 + (terminated space (r.storedNames.take k)).length < maxMsgLen}
          = {k | k ≤ r.clientList.length ∧
            (terminated space (r.storedNames.take k)).length ≤ maxMsgLen - 1} := by
      ext j
      rw [storedNames, List.length_map, Set.mem_ofPred_eq, Set.mem_ofPred_eq, maxMsgLen]
      omega
    exact hset ▸ hk
  · rw [hlist, str_getClientList, htake]

/-- The list of 4 and 5. -/
theorem client_list_longest_of_two :
    let run := getClientListRun (afterRun [joins 4, joins 5]).clientList (.zero _) 0
    run.2.1 = ((afterRun [joins 4, joins 5]).getClientList (.zero _)).2 ∧
      (∀ a ∈ run.1, a.InOrder) ∧ run.2.2 = run.2.1.str.length ∧ (0 : UInt8) ∈ run.2.1.bytes ∧
      ∃ k, IsGreatest {k | k ≤ (afterRun [joins 4, joins 5]).clientList.length ∧
          (terminated space ((afterRun [joins 4, joins 5]).storedNames.take k)).length
            ≤ maxMsgLen - 1} k ∧
        run.2.1.str = terminated space ((afterRun [joins 4, joins 5]).storedNames.take k) :=
  have hnamed : ∀ n ∈ (afterRun [joins 4, joins 5]).clientList,
      (0 : UInt8) ∈ n.data.name.bytes := by decide +kernel
  client_list_longest hnamed

/-- A registered client that asks for the list is sent it. -/
theorem get_list_step {r : Registry} {c : Int} (hd : r.Distinct) (hc : (r.node c).isSome)
    {msg : Msg} (hmsg : msg.msgType = .getClientListType) :
    atomicStep r (.rxMsg c msg) = some (r, [.sent c
      { Msg.ofType .getClientListType with buffer := (r.getClientList (.zero _)).2 }]) := by
  have hacts : (Event.rxMsg c msg).acts r = [.sent c
      { Msg.ofType .getClientListType with buffer := (r.getClientList (.zero _)).2 }] := by
    simp only [Event.acts, rxActs, hmsg, clientListActs, if_neg (hd.ne_invalidFd hc)]
  exact atomicStep_eq_some_iff.mpr ⟨hc, by rw [hacts]; rfl, hacts.symm⟩

/-- In every reachable state, the list that a client is sent splits into the stored names, and an
empty rest, exactly if `Listable` holds. -/
theorem client_list_readable_iff {r : Registry} {c : Int} (hr : Reachable atomicStep .empty r)
    (hc : (r.node c).isSome) {msg : Msg} (hmsg : msg.msgType = .getClientListType) :
    ∃ reply, atomicStep r (.rxMsg c msg) = some (r, [.sent c reply]) ∧
      reply.msgType = .getClientListType ∧
      (reply.buffer.str.splitOn space = r.storedNames ++ [[]] ↔ r.Listable) := by
  have hd := (hr.inv good_atomicStep good_empty).wf.distinct
  refine ⟨_, get_list_step hd hc hmsg, rfl, ?_⟩
  rw [str_getClientList]
  exact splitOn_fitting_iff (by decide)

/-- 4 and 5 have joined with the names they are given. -/
theorem list_of_two :
    ∃ reply, atomicStep (afterRun [joins 4, joins 5]) (.rxMsg 4 (.ofType .getClientListType))
        = some (afterRun [joins 4, joins 5], [.sent 4 reply]) ∧
      reply.msgType = .getClientListType ∧
      (reply.buffer.str.splitOn space = (afterRun [joins 4, joins 5]).storedNames ++ [[]] ↔
        (afterRun [joins 4, joins 5]).Listable) :=
  client_list_readable_iff ⟨[joins 4, joins 5], play_final (by decide +kernel)⟩
    (by decide +kernel) rfl

/-- 4 calls itself `a b`. -/
def spacedName : List Event := [joins 4, .rxMsg 4 (.withText .setNameReqType (ascii "a b"))]

/-- Its reader takes the name of 4 for two names. -/
theorem spaced_name_listed_twice :
    play atomicStep .empty spacedName = some (afterRun spacedName) ∧
      (afterRun spacedName).storedNames = [ascii "a b"] ∧
      ((afterRun spacedName).getClientList (.zero _)).2.str.splitOn space
        = [ascii "a", ascii "b", []] :=
  ⟨play_final (by decide +kernel), by decide +kernel, by decide +kernel⟩

end ChatSocket

/-
# `Network.Exchange` — one connection after the other under a descriptor

A descriptor is free again when its connection is closed, and another client may come
under it.  A `Caller` is a client by its connection: the descriptor, and a number that
tells those who come under it apart.  An `Exchange` counts them, beside a network that
goes on as it would without (`exists_exchange`), and knows the connection of every
caller: those who are gone or still to come have none.

`Exchanged` is what an event does to all of them.
-/
import ChatSocket.Network.Basic

namespace ChatSocket

open Kit Registry

/-! ## What an event can do -/

inductive NetStepped (s : Network) : NetEvent → Network → List Act → Prop where
  | joined {fd ok argv} : (Event.accepted fd ok).Possible s.registry →
      NetStepped s (.joins fd ok argv)
        ⟨replay s.registry ((Event.accepted fd ok).acts s.registry),
          if s.registry.Accepts ok then s.conns ++ [.new fd argv] else s.conns⟩
        ((Event.accepted fd ok).acts s.registry)
  | typed {fd line c} : s.conn fd = some c → c.hungUp = false →
      NetStepped s (.types fd line) (s.change fd (.typed line)) []
  | delivered {fd c msg down} : s.conn fd = some c → c.hungUp = false → c.down = msg :: down →
      NetStepped s (.delivers fd) (s.change fd (.delivered msg down)) []
  | served {fd c msg up} : s.conn fd = some c → c.up = msg :: up →
      (Event.rxMsg fd msg).Possible s.registry →
      NetStepped s (.serves fd)
        ((s.change fd (.served up)).after
          (replay s.registry ((Event.rxMsg fd msg).acts s.registry),
            (Event.rxMsg fd msg).acts s.registry))
        ((Event.rxMsg fd msg).acts s.registry)
  | hungUp {fd c} : s.conn fd = some c → c.hungUp = false →
      NetStepped s (.hangsUp fd) (s.change fd .gone) []
  | sawEnd {fd c} : s.conn fd = some c → c.up = [] → c.hungUp = true →
      (Event.closed fd).Possible s.registry →
      NetStepped s (.seesEnd fd)
        (Network.after { s with conns := s.conns.filter fun c => c.fd ≠ fd }
          (replay s.registry ((Event.closed fd).acts s.registry),
            (Event.closed fd).acts s.registry))
        ((Event.closed fd).acts s.registry)

theorem netStepped_of_netStep {s s' : Network} {e : NetEvent} {acts : List Act}
    (hs : netStep s e = some (s', acts)) : NetStepped s e s' acts := by
  cases e with
  | joins fd ok argv =>
      obtain ⟨⟨r', acts'⟩, hq, hs⟩ := Option.map_eq_some_iff.mp hs
      obtain ⟨he, rfl, rfl⟩ := atomicStep_eq_some_iff.mp hq
      have hjoined : NetStepped s (.joins fd ok argv) _ _ := .joined he
      split at hs
      · next ha =>
          cases hs
          rwa [if_pos ha] at hjoined
      · next ha =>
          cases hs
          rwa [if_neg ha] at hjoined
  | types fd line =>
      simp only [netStep] at hs
      split at hs
      · next hc =>
          cases hs
          exact .typed hc rfl
      · cases hs
  | delivers fd =>
      simp only [netStep] at hs
      split at hs
      · next hc =>
          cases hs
          exact .delivered hc rfl rfl
      · cases hs
  | hangsUp fd =>
      simp only [netStep] at hs
      split at hs
      · next hc =>
          cases hs
          exact .hungUp hc rfl
      · cases hs
  | serves fd =>
      simp only [netStep] at hs
      split at hs
      · next hc =>
          obtain ⟨⟨r', acts'⟩, hq, hs⟩ := Option.map_eq_some_iff.mp hs
          obtain ⟨he, rfl, rfl⟩ := atomicStep_eq_some_iff.mp hq
          cases hs
          exact .served hc rfl he
      · cases hs
  | seesEnd fd =>
      simp only [netStep] at hs
      split at hs
      · next hc =>
          obtain ⟨⟨r', acts'⟩, hq, hs⟩ := Option.map_eq_some_iff.mp hs
          obtain ⟨he, rfl, rfl⟩ := atomicStep_eq_some_iff.mp hq
          cases hs
          exact .sawEnd hc rfl rfl he
      · cases hs

/-! ## Who is registered -/

section
variable {r : Registry} {e : Event} {g : Int}

/-- Only the end of a connection takes somebody away. -/
theorem deed_eq_leave (he : e.deed r = .leave g) : e = .closed g := by
  cases e with
  | accepted fd ok =>
      simp only [Event.deed] at he
      split at he <;> cases he
  | closed fd =>
      cases he
      rfl
  | rxMsg fd msg =>
      simp only [Event.deed, rxDeed, acceptDeed, txDeed, declineDeed] at he
      repeat' split at he
      all_goals cases he

theorem node_isSome_after (h : r.Good) (he : e.Possible r) (hg : (r.node g).isSome)
    (hne : e ≠ .closed g) : ((replay r (e.acts r)).node g).isSome := by
  obtain ⟨-, hroom, -⟩ := refines h he
  have hbadge : ∀ {q : Registry}, (q.node g).isSome = (q.room.badgeOf g).isSome := by
    intro q
    rw [badgeOf_room, Option.isSome_map]
  rw [hbadge, hroom, badge_apply]
  rw [hbadge] at hg
  cases hd : e.deed r with
  | enter a k =>
      dsimp only
      split
      · rfl
      · exact hg
  | leave a =>
      dsimp only
      split
      · next hga => exact absurd (deed_eq_leave (hga ▸ hd)) hne
      · exact hg
  | _ => exact hg

end

/-- Every connection has its node. -/
structure Network.Housed (s : Network) : Prop where
  good : s.registry.Good
  node : ∀ fd, (s.conn fd).isSome → (s.registry.node fd).isSome

theorem Network.housed_boot : Network.boot.Housed := ⟨good_empty, fun _ h => by cases h⟩

section
variable {s s' : Network} {e : NetEvent} {acts : List Act}

theorem Network.Housed.step (h : s.Housed) (hs : NetStepped s e s' acts) : s'.Housed := by
  have hchange : ∀ {fd : Int} {f : Conn → Conn}, (∀ c, (f c).fd = c.fd) → ∀ g,
      ((s.change fd f).conn g).isSome → (s.registry.node g).isSome := by
    intro fd f hf g hg
    refine h.node g ?_
    rw [Network.conn_change hf] at hg
    split at hg
    · next he =>
        rw [he]
        rwa [Option.isSome_map] at hg
    · exact hg
  cases hs with
  | @joined fd ok argv he =>
      refine ⟨h.good.step he, fun g hg => ?_⟩
      rw [Event.acts, replay_registerActs, node_add he.2]
      split
      · rfl
      · next hold =>
          refine h.node g ?_
          split at hg
          · next ha =>
              rw [Network.conn_join, if_neg fun hfd => hold ⟨hfd.symm, ha⟩, Option.or_none] at hg
              exact hg
          · exact hg
  | typed => exact ⟨h.good, hchange fun _ => rfl⟩
  | delivered => exact ⟨h.good, hchange fun _ => rfl⟩
  | hungUp => exact ⟨h.good, hchange fun _ => rfl⟩
  | @served fd c msg up hc hup he =>
      refine ⟨h.good.step he, fun g hg => ?_⟩
      rw [Network.conn_after, Option.isSome_map] at hg
      exact node_isSome_after h.good he (hchange (f := .served up) (fun _ => rfl) g hg)
        Event.noConfusion
  | @sawEnd fd c hc hup hgone he =>
      refine ⟨h.good.step he, fun g hg => ?_⟩
      rw [Network.conn_after, Option.isSome_map, Network.conn_drop] at hg
      split at hg
      · cases hg
      · next hne =>
          refine node_isSome_after h.good he (h.node g hg) ?_
          rintro ⟨rfl⟩
          exact hne rfl

end

/-! ## Connections by their callers -/

/-- A client, by its connection: it is the `call`-th under the descriptor. -/
structure Caller where
  fd : Int
  call : Nat
  deriving DecidableEq

/-- A network, and how many clients have come under each descriptor. -/
structure Exchange where
  net : Network
  calls : Int → Nat

namespace Exchange

def boot : Exchange := ⟨.boot, fun _ => 0⟩

/-- Whose the descriptor is now. -/
def caller (x : Exchange) (fd : Int) : Caller := ⟨fd, x.calls fd⟩

/-- The connection of a client, while there is one. -/
def conn (x : Exchange) (k : Caller) : Option Conn :=
  if x.caller k.fd = k then x.net.conn k.fd else none

end Exchange

/-- Who is registered is one more under the descriptor. -/
def NetEvent.count (x : Exchange) : NetEvent → Int → Nat
  | joins fd ok _ =>
      if x.net.registry.Accepts ok then Function.update x.calls fd (x.calls fd + 1) else x.calls
  | types _ _ | delivers _ | serves _ | hangsUp _ | seesEnd _ => x.calls

def exchangeStep (x : Exchange) (e : NetEvent) : Option (Exchange × List Act) :=
  (netStep x.net e).map fun q => (⟨q.1, e.count x⟩, q.2)

theorem exchangeStep_eq_some_iff {x x' : Exchange} {e : NetEvent} {acts : List Act} :
    exchangeStep x e = some (x', acts) ↔
      netStep x.net e = some (x'.net, acts) ∧ x'.calls = e.count x := by
  obtain ⟨s', calls⟩ := x'
  simp only [exchangeStep, Option.map_eq_some_iff, Prod.mk.injEq, Exchange.mk.injEq, Prod.exists]
  constructor
  · rintro ⟨_, _, hs, ⟨rfl, rfl⟩, rfl⟩
    exact ⟨hs, rfl⟩
  · rintro ⟨hs, rfl⟩
    exact ⟨_, _, hs, ⟨rfl, rfl⟩, rfl⟩

/-- Counting hinders nothing. -/
theorem exists_exchange {es : List NetEvent} {s : Network} : ∀ {x : Exchange},
    play netStep x.net es = some s → ∃ x', play exchangeStep x es = some x' ∧ x'.net = s := by
  induction es with
  | nil =>
      intro x hplay
      cases hplay
      exact ⟨x, rfl, rfl⟩
  | cons e es ih =>
      intro x hplay
      obtain ⟨⟨t, acts⟩, ht, hrest⟩ := Option.bind_eq_some_iff.mp hplay
      have hstep : exchangeStep x e = some (⟨t, e.count x⟩, acts) :=
        exchangeStep_eq_some_iff.mpr ⟨ht, rfl⟩
      obtain ⟨x', hx', hs⟩ := ih (x := ⟨t, e.count x⟩) hrest
      refine ⟨x', ?_, hs⟩
      rw [play, hstep]
      exact hx'

/-- What an event does to the connections. -/
inductive Exchanged (x : Exchange) : NetEvent → List Act → (Caller → Option Conn) → Prop where
  | joined {fd ok argv} {k : Caller} : (Event.accepted fd ok).Possible x.net.registry →
      k.fd = fd → x.conn k = none →
      Exchanged x (.joins fd ok argv) ((Event.accepted fd ok).acts x.net.registry)
        (Function.update x.conn k (some (.new fd argv)))
  | refused {fd ok argv} : (Event.accepted fd ok).Possible x.net.registry →
      Exchanged x (.joins fd ok argv) ((Event.accepted fd ok).acts x.net.registry) x.conn
  | typed {fd line c} : x.conn (x.caller fd) = some c → c.hungUp = false →
      Exchanged x (.types fd line) []
        (Function.update x.conn (x.caller fd) (some (c.typed line)))
  | delivered {fd c msg down} : x.conn (x.caller fd) = some c → c.hungUp = false →
      c.down = msg :: down →
      Exchanged x (.delivers fd) []
        (Function.update x.conn (x.caller fd) (some (c.delivered msg down)))
  | served {fd c msg up} : x.conn (x.caller fd) = some c → c.up = msg :: up →
      (Event.rxMsg fd msg).Possible x.net.registry →
      Exchanged x (.serves fd) ((Event.rxMsg fd msg).acts x.net.registry)
        fun k => (Function.update x.conn (x.caller fd) (some (c.served up)) k).map
          (Conn.send ((Event.rxMsg fd msg).acts x.net.registry))
  | hungUp {fd c} : x.conn (x.caller fd) = some c → c.hungUp = false →
      Exchanged x (.hangsUp fd) [] (Function.update x.conn (x.caller fd) (some c.gone))
  | sawEnd {fd c} : x.conn (x.caller fd) = some c → c.up = [] → c.hungUp = true →
      (Event.closed fd).Possible x.net.registry →
      Exchanged x (.seesEnd fd) ((Event.closed fd).acts x.net.registry)
        fun k => (Function.update x.conn (x.caller fd) none k).map
          (Conn.send ((Event.closed fd).acts x.net.registry))

namespace Exchange

variable {x : Exchange}

theorem conn_caller (fd : Int) : x.conn (x.caller fd) = x.net.conn fd := if_pos rfl

theorem conn_fd {k : Caller} {c : Conn} (hc : x.conn k = some c) : c.fd = k.fd := by
  rw [conn] at hc
  split at hc
  · exact Network.conn_fd hc
  · cases hc

/-- Where nobody comes, only the connection of one descriptor can change. -/
theorem conn_update {s' : Network} {fd : Int} {oc : Option Conn}
    (hs' : ∀ g, s'.conn g = if g = fd then oc else x.net.conn g) :
    Exchange.conn ⟨s', x.calls⟩ = Function.update x.conn (x.caller fd) oc := by
  funext k
  show (if x.caller k.fd = k then s'.conn k.fd else none) = _
  rcases eq_or_ne k (x.caller fd) with rfl | hk
  · rw [Function.update_self]
    exact (if_pos rfl).trans ((hs' fd).trans (if_pos rfl))
  · rw [Function.update_of_ne hk, conn]
    split
    · next hcaller =>
        refine (hs' k.fd).trans (if_neg ?_)
        rintro hfd
        exact hk (hfd ▸ hcaller.symm)
    · rfl

theorem conn_map {s' : Network} {f : Conn → Conn} {oc : Caller → Option Conn}
    (hs : x.conn = oc) (hs' : ∀ g, s'.conn g = (x.net.conn g).map f) :
    Exchange.conn ⟨s', x.calls⟩ = fun k => (oc k).map f := by
  funext k
  rw [← hs]
  show (if x.caller k.fd = k then s'.conn k.fd else none) = _
  rw [conn, hs']
  split <;> rfl

end Exchange

section
variable {x x' : Exchange} {e : NetEvent} {acts : List Act}

/-- Who comes under a descriptor is somebody new. -/
theorem conn_comes (hx : x.net.Housed) {fd : Int} (hnone : x.net.registry.node fd = none)
    (argv : Option (List UInt8)) (r : Registry) :
    Exchange.conn ⟨⟨r, x.net.conns ++ [.new fd argv]⟩,
        Function.update x.calls fd (x.calls fd + 1)⟩
      = Function.update x.conn ⟨fd, x.calls fd + 1⟩ (some (.new fd argv)) := by
  have hfree : x.net.conn fd = none := by
    cases hc : x.net.conn fd with
    | none => rfl
    | some c =>
        have hnode := hx.node fd (by rw [hc]; rfl)
        rw [hnone] at hnode
        cases hnode
  funext ⟨g, i⟩
  rcases eq_or_ne g fd with rfl | hg
  · show (if Caller.mk g (Function.update x.calls g _ g) = ⟨g, i⟩ then _ else none) = _
    rw [Function.update_self, Network.conn_join, hfree]
    rcases eq_or_ne (x.calls g + 1) i with rfl | hi
    · rw [Function.update_self, if_pos rfl, Option.none_or]
      exact if_pos rfl
    · rw [if_neg fun he => hi (Caller.mk.inj he).2, Function.update_of_ne fun he => hi
        (Caller.mk.inj he).2.symm, Exchange.conn]
      split
      · exact hfree.symm
      · rfl
  · show (if Caller.mk g (Function.update x.calls fd _ g) = ⟨g, i⟩ then _ else none) = _
    rw [Function.update_of_ne hg, Function.update_of_ne fun he => hg (Caller.mk.inj he).1,
      Network.conn_join]
    show (if _ then Option.or _ (if fd = g then _ else _) else none) = _
    rw [if_neg hg.symm, Option.or_none]
    rfl

/-- The connection of the client under `fd` becomes `oc`. -/
theorem conn_change_update {fd : Int} {f : Conn → Conn} (hf : ∀ c, (f c).fd = c.fd) {c : Conn}
    (hc : x.net.conn fd = some c) :
    Exchange.conn ⟨x.net.change fd f, x.calls⟩
      = Function.update x.conn (x.caller fd) (some (f c)) := by
  refine Exchange.conn_update fun g => ?_
  rw [Network.conn_change hf, hc]
  rfl

theorem exchanged_of_step (hx : x.net.Housed) (hs : exchangeStep x e = some (x', acts)) :
    Exchanged x e acts x'.conn := by
  obtain ⟨s', calls'⟩ := x'
  obtain ⟨hstep, hcalls⟩ := exchangeStep_eq_some_iff.mp hs
  obtain rfl : calls' = e.count x := hcalls
  have hstepped : NetStepped x.net e s' acts := netStepped_of_netStep hstep
  cases hstepped with
  | @joined fd ok argv he =>
      rw [NetEvent.count]
      split
      · rw [conn_comes hx he.2]
        refine .joined he rfl (if_neg fun heq => ?_)
        exact absurd (Caller.mk.inj heq).2 (Nat.succ_ne_self _).symm
      · exact .refused he
  | @typed fd line c hc hlive =>
      rw [NetEvent.count, conn_change_update (f := .typed line) (fun _ => rfl) hc]
      exact .typed ((x.conn_caller fd).trans hc) hlive
  | @delivered fd c msg down hc hlive hdown =>
      rw [NetEvent.count, conn_change_update (f := .delivered msg down) (fun _ => rfl) hc]
      exact .delivered ((x.conn_caller fd).trans hc) hlive hdown
  | @served fd c msg up hc hup he =>
      rw [NetEvent.count, Exchange.conn_map (x := ⟨x.net.change fd (.served up), x.calls⟩)
        (conn_change_update (f := .served up) (fun _ => rfl) hc) (Network.conn_after _)]
      exact .served ((x.conn_caller fd).trans hc) hup he
  | @hungUp fd c hc hlive =>
      rw [NetEvent.count, conn_change_update (f := .gone) (fun _ => rfl) hc]
      exact .hungUp ((x.conn_caller fd).trans hc) hlive
  | @sawEnd fd c hc hup hgone he =>
      rw [NetEvent.count, Exchange.conn_map
        (x := ⟨{ x.net with conns := x.net.conns.filter fun c => c.fd ≠ fd }, x.calls⟩)
        (Exchange.conn_update (Network.conn_drop _ fd)) (Network.conn_after _)]
      exact .sawEnd ((x.conn_caller fd).trans hc) hup hgone he

end

end ChatSocket

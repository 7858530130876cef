import Cc2obp.Cccc.Effects
import Cc2obp.Lib.Run

/-!
# Keepalives between two ends of a link

Two processes, each with a link to the other, and the datagrams in flight between
their voice ports. Every keepalive that arrives is reflected, a reflected one too:
nothing is lost or multiplied, and nothing comes to rest.
-/
namespace Cc2obp

open World

def ccccVoicePort : Int := 42422

/-- One end of a link: the process, the link's index, the address of its host. -/
structure Endpoint where
  world : World
  link : Nat
  ip : List Byte

inductive Side where
  | outbound
  | inbound
deriving DecidableEq

def Side.other : Side → Side
  | .outbound => .inbound
  | .inbound => .outbound

structure Datagram where
  dest : Side
  bytes : List Byte
  srcIp : List Byte
  srcPort : Int

structure Pair where
  ends : Side → Endpoint
  net : List Datagram := []

/-- What is counted: keepalives of the timers, reflected ones, deliveries. -/
inductive Tally where
  | originated
  | reflected
  | delivered
deriving DecidableEq

def Out.tally : Out → Option Tally
  | .udp _ (.keepalive _) _ _ _ => some .originated
  | .udp _ (.reflect _) _ _ _ => some .reflected
  | _ => none

/-- A datagram of one end's voice socket to the other end's. -/
def Out.toOther (p : Pair) (side : Side) : Out → Option Datagram
  | .udp fd _ bytes ip port =>
    if fd = (p.ends side).world.voiceFd ∧ ip = (p.ends side.other).ip ∧ port = ccccVoicePort then
      some { dest := side.other, bytes, srcIp := (p.ends side).ip, srcPort := ccccVoicePort }
    else none
  | _ => none

/-- A callback at one end; what it sends to the other end is in flight. -/
def Pair.act (p : Pair) (side : Side) (f : World → World) : Pair × List Tally :=
  let e := p.ends side
  let w := f e.world.unlogged
  ({ ends := Function.update p.ends side { e with world := w.unlogged }
     net := p.net ++ w.out.filterMap (Out.toOther p side) },
    w.out.filterMap Out.tally)

/-- The clock is all the callbacks take from outside. -/
def clock (now : Rat) : Ctx := { now }

inductive PairEvent where
  /-- The link's keepalive timer fires. -/
  | timer (side : Side) (now : Rat)
  /-- A datagram in flight arrives. -/
  | deliver (n : Nat) (now : Rat)

def pairStep (p : Pair) : PairEvent → Pair × List Tally
  | .timer side now => p.act side (keepaliveCb (clock now) (p.ends side).link)
  | .deliver n now =>
    match p.net[n]? with
    | none => (p, [])
    | some d =>
      let rest := { p with net := p.net.eraseIdx n }
      let (p, out) := rest.act d.dest (onVoiceReadable (clock now) d.bytes d.srcIp d.srcPort)
      (p, .delivered :: out)

/-- Keepalive datagrams sent, whoever they are for. -/
def keepalivesSent (trace : List Tally) : Nat := trace.count .originated + trace.count .reflected

/-- The configurations and sockets of the two ends point at each other. -/
def Facing (p : Pair) : Prop := ∀ side,
  ((p.ends side).world.cfg.linkAt (p.ends side).link).ccRemoteIp = (p.ends side.other).ip ∧
    ((p.ends side).world.cfg.linkAt (p.ends side).link).ccRemoteVoicePort = ccccVoicePort

/-- The link of an end is UP. -/
def Pair.up (p : Pair) (side : Side) : Prop :=
  ((p.ends side).world.links (p.ends side).link).state = .up

/-- The sync source leads to the link at both ends. -/
def Established (ssrc : BitVec 32) (p : Pair) : Prop := ∀ side,
  findLinkBySsrc (p.ends side).world ssrc = some (p.ends side).link ∧
    ((p.ends side).world.links (p.ends side).link).syncSource = ssrc

/-- A keepalive of the link on its way from one voice socket to the other. -/
def OnItsWay (ssrc : BitVec 32) (p : Pair) (d : Datagram) : Prop :=
  d.bytes = buildKeepalive ssrc ∧ d.srcIp = (p.ends d.dest.other).ip ∧ d.srcPort = ccccVoicePort

@[simp] theorem Side.other_other (side : Side) : side.other.other = side := by cases side <;> rfl

theorem Side.eq_or_other (side s : Side) : s = side ∨ s = side.other := by
  cases side <;> cases s <;> simp [Side.other]

theorem Side.other_ne (side : Side) : side.other ≠ side := by cases side <;> decide

/-! ## One callback -/

/-- What a run keeps: one keepalive in flight for each originated one, as long as both links stay UP
none more and none fewer, each of them bound for the other end. -/
structure Circulating (ssrc : BitVec 32) (p : Pair) (trace : List Tally) : Prop where
  facing : Facing p
  reflected : trace.count .reflected ≤ trace.count .delivered
  inFlight : p.net.length + trace.count .delivered ≤ trace.count .originated + trace.count .reflected
  established : p.up .outbound → p.up .inbound → Established ssrc p ∧
    p.net.length = trace.count .originated ∧ trace.count .reflected = trace.count .delivered ∧
    ∀ d ∈ p.net, OnItsWay ssrc p d

section Act
variable {p : Pair} {side : Side} {f : World → World}

@[simp] theorem act_ends_self : (p.act side f).1.ends side =
    { p.ends side with world := (f (p.ends side).world.unlogged).unlogged } := by
  simp [Pair.act]

@[simp] theorem act_ends_other : (p.act side f).1.ends side.other = p.ends side.other := by
  simp [Pair.act, Side.other_ne]

theorem act_net {log : List Out} (recorded : (f (p.ends side).world.unlogged).out = log) :
    (p.act side f).1.net = p.net ++ log.filterMap (Out.toOther p side) := by
  rw [← recorded]
  rfl

theorem act_tally {log : List Out} (recorded : (f (p.ends side).world.unlogged).out = log) :
    (p.act side f).2 = log.filterMap Out.tally := by
  rw [← recorded]
  rfl

theorem act_up : (p.act side f).1.up side ↔
    ((f (p.ends side).world.unlogged).links (p.ends side).link).state = .up := by
  simp [Pair.up]

theorem act_up_other : (p.act side f).1.up side.other ↔ p.up side.other := by
  simp [Pair.up]

theorem act_ip (s : Side) : ((p.act side f).1.ends s).ip = (p.ends s).ip := by
  rcases side.eq_or_other s with rfl | rfl <;> simp

/-- Both links are UP: this one and the other one. -/
theorem up_both (side : Side) : p.up .outbound ∧ p.up .inbound ↔ p.up side ∧ p.up side.other := by
  cases side with
  | outbound => rfl
  | inbound => exact and_comm

/-- A callback that keeps the configuration keeps the ends facing each other. -/
theorem facing_act (facing : Facing p)
    (cfg : (f (p.ends side).world.unlogged).cfg = (p.ends side).world.cfg) :
    Facing (p.act side f).1 := by
  intro s
  rcases side.eq_or_other s with rfl | rfl
  · simpa [cfg] using facing s
  · simpa [cfg] using facing side.other

/-- Who holds the sync source is kept by a callback that keeps the sync sources. -/
theorem established_act {ssrc : BitVec 32} (established : Established ssrc p)
    (cfg : (f (p.ends side).world.unlogged).cfg = (p.ends side).world.cfg)
    (links : ∀ i, ((f (p.ends side).world.unlogged).links i).hasSyncSource =
        ((p.ends side).world.links i).hasSyncSource ∧
      ((f (p.ends side).world.unlogged).links i).syncSource =
        ((p.ends side).world.links i).syncSource) :
    Established ssrc (p.act side f).1 := by
  intro s
  rcases side.eq_or_other s with rfl | rfl
  · rw [act_ends_self]
    refine ⟨?_, (links _).2.trans (established s).2⟩
    rw [← (established s).1]
    exact findLinkBySsrc_congr cfg links ssrc
  · rw [act_ends_other]
    exact established side.other

end Act

section Steps
variable {ssrc : BitVec 32} {p : Pair} {trace : List Tally}

/-- The keepalive of a timer goes to the other end. -/
theorem keepaliveOut_toOther (facing : Facing p) (side : Side) :
    (keepaliveOut (p.ends side).link (p.ends side).world.unlogged).toOther p side =
      some { dest := side.other
             bytes := buildKeepalive ((p.ends side).world.links (p.ends side).link).syncSource
             srcIp := (p.ends side).ip, srcPort := ccccVoicePort } := by
  simp [keepaliveOut, Out.toOther, facing side]

/-- The timer of a link that is not UP does nothing that counts. -/
theorem circulating_timer_down (before : Circulating ssrc p trace) (side : Side) (now : Rat)
    (down : ¬p.up side) :
    Circulating ssrc (pairStep p (.timer side now)).1 (trace ++ (pairStep p (.timer side now)).2) := by
  have quiet := keepaliveCb_down (clock now) (p.ends side).link (p.ends side).world.unlogged down
  have recorded : (keepaliveCb (clock now) (p.ends side).link (p.ends side).world.unlogged).out = [] := by
    rw [quiet]
    rfl
  have still : ¬(p.act side (keepaliveCb (clock now) (p.ends side).link)).1.up side := by
    rw [act_up, quiet]
    simpa [World.setLink, Pair.up] using down
  simp only [pairStep, act_tally recorded, List.filterMap_nil, List.append_nil]
  constructor
  case facing => exact facing_act before.facing (keepaliveCb_cfg _ _ _)
  case reflected => exact before.reflected
  case inFlight =>
    rw [act_net recorded]
    simpa using before.inFlight
  case established => exact fun out inn => absurd ((up_both side).mp ⟨out, inn⟩).1 still

/-- The timer of an UP link puts one keepalive in flight. -/
theorem circulating_timer_up (before : Circulating ssrc p trace) (side : Side) (now : Rat)
    (up : p.up side) :
    Circulating ssrc (pairStep p (.timer side now)).1 (trace ++ (pairStep p (.timer side now)).2) := by
  have log := keepaliveCb_out (clock now) (p.ends side).link (p.ends side).world.unlogged up
  rw [unlogged_out, List.nil_append] at log
  -- the timer puts one keepalive on the way, whether or not it finds the link silent
  have net : (p.act side (keepaliveCb (clock now) (p.ends side).link)).1.net = p.net ++
      [{ dest := side.other
         bytes := buildKeepalive ((p.ends side).world.links (p.ends side).link).syncSource
         srcIp := (p.ends side).ip, srcPort := ccccVoicePort }] := by
    rw [act_net log, List.filterMap_cons_some (keepaliveOut_toOther before.facing side)]
    split <;> rfl
  have counted : (p.act side (keepaliveCb (clock now) (p.ends side).link)).2 = [.originated] := by
    rw [act_tally log]
    split <;> rfl
  simp only [pairStep, counted]
  constructor
  case facing => exact facing_act before.facing (keepaliveCb_cfg _ _ _)
  case reflected => simpa using before.reflected
  case inFlight =>
    have inFlight := before.inFlight
    rw [net]
    simp
    omega
  case established =>
    intro out inn
    obtain ⟨here, there⟩ := (up_both side).mp ⟨out, inn⟩
    rw [act_up] at here
    -- a link torn down here is no end of an established pair
    by_cases silent : linkTimedOut (clock now) (p.ends side).link (p.ends side).world.unlogged
    · have down := keepaliveCb_timedOut _ _ _ (unlogged_links _ ▸ up) silent
      rw [down] at here
      cases here
    · obtain ⟨timer, links⟩ := keepaliveCb_kept (clock now) (p.ends side).link
        (p.ends side).world.unlogged up silent
      obtain ⟨both, both'⟩ := (up_both side).mpr ⟨up, act_up_other.mp there⟩
      obtain ⟨established, length, reflected, bound⟩ := before.established both both'
      refine ⟨established_act established (keepaliveCb_cfg _ _ _) ?_, ?_, by simpa using reflected, ?_⟩
      · intro i
        rw [links]
        by_cases here : i = (p.ends side).link
        · subst here
          simp
        · simp [here]
      · rw [net]
        simp [length]
      · rw [net]
        intro d member
        -- datagrams on the way before, and the new one
        rcases List.mem_append.mp member with old | new
        · obtain ⟨bytes, srcIp, srcPort⟩ := bound d old
          exact ⟨bytes, by rw [act_ip]; exact srcIp, srcPort⟩
        · rw [List.mem_singleton.mp new]
          refine ⟨by rw [(established side).2], ?_, rfl⟩
          rw [act_ip, Side.other_other]

/-- A datagram that arrives is answered by nothing, or by one reflection. -/
theorem act_onVoiceReadable (p : Pair) (d : Datagram) (now : Rat) :
    let after := p.act d.dest (onVoiceReadable (clock now) d.bytes d.srcIp d.srcPort)
    (after.2 = [] ∧ after.1.net = p.net) ∨
      (after.2 = [.reflected] ∧ after.1.net.length ≤ p.net.length + 1) := by
  rcases onVoiceReadable_out (clock now) d.bytes d.srcIp d.srcPort (p.ends d.dest).world.unlogged
    with log | ⟨idx, log⟩ | ⟨call, log⟩ <;> rw [unlogged_out] at log
  · exact .inl ⟨act_tally log, by simp [act_net log]⟩
  · refine .inr ⟨act_tally log, ?_⟩
    rw [act_net log, List.length_append]
    exact Nat.add_le_add_left (List.length_filterMap_le _ _) _
  · exact .inl ⟨act_tally log, by rw [act_net log]; simp [Out.toOther]⟩

/-- A datagram that arrives leaves at most one behind, and on an established link exactly one. -/
theorem circulating_deliver (before : Circulating ssrc p trace) (n : Nat) (now : Rat) :
    Circulating ssrc (pairStep p (.deliver n now)).1 (trace ++ (pairStep p (.deliver n now)).2) := by
  cases found : p.net[n]? with
  | none => simpa [pairStep, found] using before
  | some d =>
    have inside : n < p.net.length := (List.getElem?_eq_some_iff.mp found).1
    -- the datagram leaves the network before it is handled
    have shorter := List.length_eraseIdx_of_lt inside
    have arrived : d ∈ p.net := List.mem_of_getElem? found
    simp only [pairStep, found]
    generalize rest_eq : ({ p with net := p.net.eraseIdx n } : Pair) = rest
    have ends : rest.ends = p.ends := by rw [← rest_eq]
    have left : rest.net = p.net.eraseIdx n := by rw [← rest_eq]
    have facing : Facing rest := by
      intro side
      rw [ends]
      exact before.facing side
    have inFlight := before.inFlight
    have reflected := before.reflected
    constructor
    case facing => exact facing_act facing (onVoiceReadable_cfg _ _ _ _ _)
    case reflected =>
      -- whatever it is, it is reflected at most once
      obtain ⟨tally, -⟩ | ⟨tally, -⟩ := act_onVoiceReadable rest d now <;> rw [tally]
      · simp
        omega
      · simp
        omega
    case inFlight =>
      obtain ⟨tally, net⟩ | ⟨tally, net⟩ := act_onVoiceReadable rest d now
      · rw [tally, net, left]
        simp
        omega
      · rw [left] at net
        rw [tally]
        simp
        omega
    case established =>
      intro out inn
      obtain ⟨heard, links⟩ := onVoiceReadable_links (clock now) d.bytes d.srcIp d.srcPort
        (rest.ends d.dest).world.unlogged
      obtain ⟨here, there⟩ := (up_both d.dest).mp ⟨out, inn⟩
      rw [act_up, links] at here
      rw [act_up_other] at there
      have both : p.up .outbound ∧ p.up .inbound := by
        refine (up_both d.dest).mpr ⟨?_, ?_⟩
        · simpa [Pair.up, ends] using here
        · simpa [Pair.up, ends] using there
      obtain ⟨established, length, once, bound⟩ := before.established both.1 both.2
      have established' : Established ssrc rest := by
        intro side
        rw [ends]
        exact established side
      obtain ⟨bytes, srcIp, srcPort⟩ := bound d arrived
      -- between established ends everything on the way is a keepalive of the pair, which is reflected
      have log := onVoiceReadable_keepalive (clock now) d.srcIp d.srcPort
        (rest.ends d.dest).world.unlogged ssrc (rest.ends d.dest).link (established' d.dest).1
        (by rw [srcIp, unlogged_cfg, (facing d.dest).1, ends])
      rw [unlogged_out, List.nil_append, ← bytes] at log
      have reflection : (Out.udp (rest.ends d.dest).world.unlogged.voiceFd
          (.reflect (rest.ends d.dest).link) d.bytes d.srcIp d.srcPort).toOther rest d.dest =
          some { dest := d.dest.other, bytes := d.bytes, srcIp := (rest.ends d.dest).ip
                 srcPort := ccccVoicePort } := by
        simp [Out.toOther, srcIp, srcPort, ends]
      have net := act_net log
      rw [List.filterMap_cons_some reflection, List.filterMap_nil, left] at net
      refine ⟨?_, ?_, ?_, ?_⟩
      · refine established_act established' (onVoiceReadable_cfg _ _ _ _ _) fun i => ?_
        rw [links]
        exact ⟨rfl, rfl⟩
      · rw [act_tally log, net]
        simp [Out.tally]
        omega
      · rw [act_tally log]
        simp [Out.tally, once]
      · rw [net]
        intro d' member
        rcases List.mem_append.mp member with old | new
        · obtain ⟨bytes', srcIp', srcPort'⟩ := bound d' (List.mem_of_mem_eraseIdx old)
          exact ⟨bytes', by rw [act_ip, ends]; exact srcIp', srcPort'⟩
        · rw [List.mem_singleton.mp new]
          exact ⟨bytes, by rw [act_ip, Side.other_other], rfl⟩

end Steps

/-- In every run from an established link with nothing in flight: each delivery is answered by at
most one datagram, so no more are in flight than the timers have originated; and while both links
stay UP each delivery is answered by exactly one, and exactly that many are in flight. -/
theorem keepalives_circulate (ssrc : BitVec 32) (p : Pair) (es : List PairEvent) (facing : Facing p)
    (established : Established ssrc p) (quiet : p.net = []) :
    let after := Machine.run pairStep p es
    keepalivesSent after.2 ≤ after.2.count .originated + after.2.count .delivered ∧
      after.1.net.length ≤ after.2.count .originated ∧
      (after.1.up .outbound → after.1.up .inbound →
        keepalivesSent after.2 = after.2.count .originated + after.2.count .delivered ∧
          after.1.net.length = after.2.count .originated) := by
  have start : Circulating ssrc p [] := by
    constructor
    case facing => exact facing
    case reflected => rfl
    case inFlight => simp [quiet]
    case established => exact fun _ _ => ⟨established, by simp [quiet], rfl, by simp [quiet]⟩
  have met := Machine.meets_of_forall pairStep (fun _ _ => True) p es fun _ _ _ => trivial
  have inv := Machine.run_invariant pairStep (Circulating ssrc)
    (fun p trace e before _ => by
      cases e with
      | timer side now =>
        by_cases up : p.up side
        · exact circulating_timer_up before side now up
        · exact circulating_timer_down before side now up
      | deliver n now => exact circulating_deliver before n now) p [] es met start
  rw [List.nil_append] at inv
  obtain ⟨-, reflected, inFlight, both⟩ := inv
  refine ⟨by rw [keepalivesSent]; omega, by omega, fun out inn => ?_⟩
  obtain ⟨-, length, once, -⟩ := both out inn
  exact ⟨by rw [keepalivesSent]; omega, length⟩

/-- An end whose link 0 to the remote is UP with sync source 1. -/
def establishedEnd (role : CcRole) (ip remote : List Byte) : Endpoint where
  world :=
    { cfg :=
        { ccKeepaliveInterval := 10, ccLinkTimeout := 30
          link := [{ enabled := true, ccRole := role, ccRemoteIp := remote
                     ccRemoteVoicePort := ccccVoicePort }] }
      voiceFd := 3
      links := Function.update (fun _ => {}) 0 { state := .up, fd := 6, syncSource := 1, hasSyncSource := true } }
  link := 0
  ip := ip

def establishedPair : Pair where
  ends
    | .outbound => establishedEnd .outbound (ascii "192.0.2.1") (ascii "192.0.2.2")
    | .inbound => establishedEnd .inbound (ascii "192.0.2.2") (ascii "192.0.2.1")

/-- One timer fires, and its keepalive is delivered three times over. -/
def oneKeepalive : List PairEvent :=
  [.timer .outbound 10, .deliver 0 10, .deliver 0 10, .deliver 0 10]

theorem establishedPair_facing : Facing establishedPair := by
  intro side
  cases side <;> exact ⟨rfl, rfl⟩

theorem establishedPair_established : Established 1 establishedPair := by
  intro side
  cases side <;> exact ⟨by decide, by decide⟩

theorem keepalives_circulate_one :
    let after := Machine.run pairStep establishedPair oneKeepalive
    keepalivesSent after.2 ≤ after.2.count .originated + after.2.count .delivered ∧
      after.1.net.length ≤ after.2.count .originated ∧
      (after.1.up .outbound → after.1.up .inbound →
        keepalivesSent after.2 = after.2.count .originated + after.2.count .delivered ∧
          after.1.net.length = after.2.count .originated) :=
  keepalives_circulate 1 establishedPair oneKeepalive establishedPair_facing
    establishedPair_established rfl

/-- One originated keepalive has been sent four times after three deliveries, and is in flight still. -/
theorem keepalives_reflected_again :
    let after := Machine.run pairStep establishedPair oneKeepalive
    (Facing establishedPair ∧ Established 1 establishedPair ∧ establishedPair.net = []) ∧
      ¬keepalivesSent after.2 ≤ 2 * after.2.count .originated :=
  ⟨⟨establishedPair_facing, establishedPair_established, rfl⟩, by decide +kernel⟩

end Cc2obp

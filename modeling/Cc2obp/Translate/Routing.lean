import Cc2obp.Config.Rules
import Cc2obp.Translate.Local

/-!
# Links and talkgroups on the wire

A frame carries the low 24 bits of its link's talkgroup; a frame that arrives is
compared with all 32.
-/
namespace Cc2obp

/-- Frames a link hands over name a talkgroup that its peer's frames reach the link by. -/
def RoutesBack (cfg : Config) (i : Nat) : Prop :=
  ∀ (env : Env) (flags : Byte) (payload33 : Bytes 33) (tr : Translator), env.cfg = cfg →
    ∀ o ∈ (sendDmrd env i flags payload33 tr).2, ∃ peer body, o = .obpSendDmrd i peer body ∧
      ∀ body' : DmrdBody, body'.dst = body.dst → addressee cfg (.obpDmrdReceived peer body') = some i

theorem and_low24_eq_iff (d : BitVec 32) : d &&& 0xFFFFFF#32 = d ↔ d.toNat < 2 ^ 24 := by
  have low : (d &&& 0xFFFFFF#32).toNat = d.toNat % 2 ^ 24 := by
    rw [BitVec.toNat_and]
    exact Nat.and_two_pow_sub_one_eq_mod d.toNat 24
  rw [← BitVec.toNat_inj, low]
  constructor
  · intro same
    omega
  · exact Nat.mod_eq_of_lt

section
variable {cfg : Config} {i peer : Nat}

/-- The link configured for a peer and talkgroup is the first, and there is no other. -/
theorem routeObp_self (rules : cfg.Rules) (inside : i < cfg.nLink)
    (resolved : (cfg.linkAt i).openbridgeIdx = some peer) :
    routeObp cfg peer (u32 (cfg.linkAt i).tgid) = some i := by
  have fits : i < cfg.link.length := inside
  have at_ : ∀ j (hj : j < cfg.link.length), cfg.linkAt j = cfg.link[j] := by
    intro j hj
    simp [Config.linkAt, hj]
  obtain ⟨-, -, -, -, -, -, routes, -⟩ := rules.accepted
  rw [at_ i fits] at resolved ⊢
  refine List.findIdx?_eq_some_iff_getElem.mpr ⟨fits, by simp [resolved], fun j before => ?_⟩
  have hj : j < cfg.link.length := by omega
  rw [List.pairwise_iff_getElem] at routes
  have apart := routes j i hj fits before
  intro taken
  simp only [Bool.and_eq_true, beq_iff_eq] at taken
  have sameTgid := u32_inj (rules.links _ (List.getElem_mem hj)).tgid (rules.links _ (List.getElem_mem fits)).tgid
    taken.2
  exact apart (by simp [taken.1]) (taken.1.trans resolved.symm) sameTgid

/-- A talkgroup that routes to the link has the link's 32 bits. -/
theorem tgid_of_routeObp {dst : BitVec 32} (routed : routeObp cfg peer dst = some i) :
    u32 (cfg.linkAt i).tgid = dst := by
  obtain ⟨fits, here, -⟩ := List.findIdx?_eq_some_iff_getElem.mp routed
  simp only [Bool.and_eq_true, beq_iff_eq] at here
  simpa [Config.linkAt, fits] using here.2

/-- Toggles play no part in the routing. -/
theorem routeObp_of_fixed {a b : Config} (same : a.fixed = b.fixed) : routeObp a = routeObp b := by
  have byFixed : ∀ (cfg : Config) (peer : Nat) (dst : BitVec 32), routeObp cfg.fixed peer dst = routeObp cfg peer dst := by
    intro cfg peer dst
    simp only [routeObp, Config.fixed, List.findIdx?_map]
    rfl
  funext peer dst
  rw [← byFixed a, ← byFixed b, same]

theorem peer_of_routeObp {dst : BitVec 32} (routed : routeObp cfg peer dst = some i) :
    (cfg.linkAt i).openbridgeIdx = some peer := by
  obtain ⟨fits, here, -⟩ := List.findIdx?_eq_some_iff_getElem.mp routed
  simp only [Bool.and_eq_true, beq_iff_eq] at here
  simpa [Config.linkAt, fits] using here.1

end

/-- In an accepted configuration a link's frames route back to it exactly when its talkgroup fits the
24 bits a frame has for it. -/
theorem routes_back_iff (t : Toml) (cfg : Config) (loaded : configLoad t = .ok cfg) (i : Nat)
    (inside : i < cfg.nLink) :
    RoutesBack cfg i ↔
      ((cfg.linkAt i).openbridgeIdx = none ∨ (u32 (cfg.linkAt i).tgid).toNat < 2 ^ 24) := by
  have rules := configLoad_rules loaded
  constructor
  · intro back
    cases resolved : (cfg.linkAt i).openbridgeIdx with
    | none => exact .inl rfl
    | some peer =>
      right
      let env : Env := { cfg, obpPeerIsEnabled := fun _ => true, now := 0 }
      have sent := back env 0 (Vector.replicate 33 0) {} rfl
      rw [sendDmrd_some env i _ _ resolved] at sent
      obtain ⟨peer', body, same, routed⟩ := sent _ (List.mem_singleton.mpr rfl)
      simp only [TrOut.obpSendDmrd.injEq, true_and] at same
      obtain ⟨rfl, rfl⟩ := same
      have here := tgid_of_routeObp (routed _ rfl)
      rw [fillDmrd, dst_dmrdBody] at here
      exact (and_low24_eq_iff _).mp here.symm
  · rintro fits env flags payload33 tr rfl o sent
    cases resolved : (env.cfg.linkAt i).openbridgeIdx with
    | none =>
      rw [sendDmrd_none env i flags payload33 resolved] at sent
      cases sent
    | some peer =>
      rw [sendDmrd_some env i flags payload33 resolved] at sent
      rw [List.mem_singleton.mp sent]
      refine ⟨peer, _, rfl, fun body' same => ?_⟩
      have narrow : (u32 (env.cfg.linkAt i).tgid).toNat < 2 ^ 24 := by simpa [resolved] using fits
      rw [fillDmrd, dst_dmrdBody, (and_low24_eq_iff _).mpr narrow] at same
      rw [addressee, same]
      exact routeObp_self rules inside resolved

/-- A file with one peer and one link. -/
def oneLinkFile (tgid : Int) : Toml where
  entries := peer.map (fun e => ⟨ascii "openbridge#0", e.1, e.2⟩) ++
    link.map (fun e => ⟨ascii "link#0", e.1, e.2⟩)
  atables := [(ascii "openbridge", 1), (ascii "link", 1)]
where
  peer : List (List Byte × TomlValue) :=
    [(ascii "name", .string (ascii "hub")), (ascii "peer_ip", .string (ascii "10.0.0.1")),
      (ascii "peer_port", .int 62032), (ascii "bind_port", .int 62031), (ascii "network_id", .int 7),
      (ascii "passphrase", .string (ascii "secret"))]
  link : List (List Byte × TomlValue) :=
    [(ascii "name", .string (ascii "one")), (ascii "tgid", .int tgid),
      (ascii "openbridge_system", .string (ascii "hub")), (ascii "cc_role", .string (ascii "inbound")),
      (ascii "cc_lid", .int 1), (ascii "cc_remote_ip", .string (ascii "10.0.0.2")),
      (ascii "cc_remote_voice_port", .int 42422)]

/-- The configuration it loads to. -/
def oneLinkConfig (tgid : Int) : Config :=
  { ccSiteName := ascii "cc2obp", ccMacAddress := ascii "000000000000", ccCodeRevision := ascii "10252"
    ccVersion := ascii "cc2obp", ccOsVersion := ascii "Linux", ccKeepaliveInterval := 10, ccLinkTimeout := 35
    openbridge := [{
      name := ascii "hub", enabled := true, peerIp := ascii "10.0.0.1", peerPort := 62032, bindPort := 62031
      networkId := 7, passphrase := ascii "secret" }]
    link := [{
      name := ascii "one", enabled := true, crossConnectActive := true, tgid
      openbridgeSystem := ascii "hub", openbridgeIdx := some 0, ccRole := .inbound, ccLid := 1
      ccRemoteIp := ascii "10.0.0.2", ccRemotePort := -1, ccRemoteVoicePort := 42422 }] }

theorem routes_back_iff_tgid9 : RoutesBack (oneLinkConfig 9) 0 ↔
    (((oneLinkConfig 9).linkAt 0).openbridgeIdx = none ∨
      (u32 ((oneLinkConfig 9).linkAt 0).tgid).toNat < 2 ^ 24) :=
  routes_back_iff (oneLinkFile 9) (oneLinkConfig 9) (by decide +kernel) 0 (by decide)

/-- A talkgroup past 24 bits loads, and its frames go out under another number. -/
theorem routes_back_wide_tgid : ¬∀ (t : Toml) (cfg : Config), configLoad t = .ok cfg →
    ∀ i < cfg.nLink, RoutesBack cfg i := by
  intro all
  have back := all (oneLinkFile 16777225) (oneLinkConfig 16777225) (by decide +kernel) 0 (by decide)
  let env : Env := { cfg := oneLinkConfig 16777225, obpPeerIsEnabled := fun _ => true, now := 0 }
  have sent := back env 0 (Vector.replicate 33 0) {} rfl
  rw [sendDmrd_some env 0 _ _ (show _ = some 0 from rfl)] at sent
  obtain ⟨peer, body, same, routed⟩ := sent _ (List.mem_singleton.mpr rfl)
  simp only [TrOut.obpSendDmrd.injEq, true_and] at same
  obtain ⟨rfl, rfl⟩ := same
  have here := routed _ rfl
  rw [addressee, fillDmrd, dst_dmrdBody] at here
  revert here
  decide +kernel

end Cc2obp

import Cc2obp.Config.Reload
import Cc2obp.Lib.Run
import Cc2obp.Openbridge.ObpLink

/-!
# Local ports of the bound sockets

A reconcile leaves sockets to enabled peers only, so two of them share a local
port only if two enabled peers do.
-/
namespace Cc2obp

section
variable (c : Ctx) (peer : Nat) (w : World)

theorem unbindPeer_active : (unbindPeer peer w).obpActive = Function.update w.obpActive peer false := by
  simp only [unbindPeer]
  split <;> rfl

theorem bindPeer_active :
    (bindPeer c peer w).obpActive = if c.bindOk peer then Function.update w.obpActive peer true else w.obpActive := by
  simp only [bindPeer]
  split <;> rfl

theorem reconcilePeer_cfg : (reconcilePeer c w peer).cfg = w.cfg := by
  simp only [reconcilePeer, bindPeer, unbindPeer]
  split
  · split <;> rfl
  · split
    · split <;> rfl
    · rfl

/-- A peer's turn leaves it a socket only if it is enabled, and touches no other peer's. -/
theorem reconcilePeer_active (p : Nat) (active : (reconcilePeer c w peer).obpActive p = true) :
    if p = peer then (w.cfg.openbridgeAt p).enabled = true else w.obpActive p = true := by
  simp only [reconcilePeer] at active
  split at active
  next binds =>
    split
    next here => rw [here]; exact binds.1
    next other => rw [bindPeer_active] at active; split at active <;> simpa [other] using active
  next stays =>
    split at active
    next drops =>
      rw [unbindPeer_active] at active
      split
      next here => simp [here] at active
      next other => simpa [other] using active
    next keeps =>
      split
      next here =>
        subst here
        simpa [active] using keeps
      · exact active

end

/-- Every socket that a reconcile leaves is an enabled peer's. -/
theorem enabled_of_reconciled (c : Ctx) (w : World) (p : Nat) (known : p < w.cfg.nOpenbridge)
    (active : (obpMuxReconcile c w).obpActive p = true) : (w.cfg.openbridgeAt p).enabled = true := by
  have turns := List.foldl_turns (reconcilePeer c)
    (fun rest v => v.cfg = w.cfg ∧ ∀ p < w.cfg.nOpenbridge, p ∉ rest → v.obpActive p = true →
      (w.cfg.openbridgeAt p).enabled = true) ?_ (List.range w.cfg.nOpenbridge) w
    ⟨rfl, fun p known left => absurd (List.mem_range.mpr known) left⟩
  · exact turns.2 p known (by simp) active
  · rintro peer rest v ⟨cfg, done⟩
    refine ⟨(reconcilePeer_cfg c peer v).trans cfg, fun p known left active => ?_⟩
    have before := reconcilePeer_active c peer v p active
    split at before
    · rwa [cfg] at before
    next other => exact done p known (by simp [other, left]) before

/-- A file with two peers `A` and `B` and no link. -/
def twoPeerFile (portA portB : Int) (onB : Bool) : Toml where
  entries := (peer (ascii "A") portA true).map (fun e => ⟨ascii "openbridge#0", e.1, e.2⟩) ++
    (peer (ascii "B") portB onB).map (fun e => ⟨ascii "openbridge#1", e.1, e.2⟩)
  atables := [(ascii "openbridge", 2)]
where
  peer (name : List Byte) (port : Int) (on : Bool) : List (List Byte × TomlValue) :=
    [(ascii "name", .string name), (ascii "enabled", .bool on), (ascii "peer_ip", .string (ascii "10.0.0.1")),
      (ascii "peer_port", .int 62032), (ascii "bind_port", .int port), (ascii "network_id", .int 7),
      (ascii "passphrase", .string (ascii "secret"))]

/-- The configuration it loads to. -/
def twoPeerConfig (portA portB : Int) (onB : Bool) : Config :=
  { ccSiteName := ascii "cc2obp", ccMacAddress := ascii "000000000000", ccCodeRevision := ascii "10252"
    ccVersion := ascii "cc2obp", ccOsVersion := ascii "Linux", ccKeepaliveInterval := 10, ccLinkTimeout := 35
    openbridge := [peer (ascii "A") portA true, peer (ascii "B") portB onB] }
where
  peer (name : List Byte) (port : Int) (on : Bool) : ObpPeerConfig :=
    { name, enabled := on, peerIp := ascii "10.0.0.1", peerPort := 62032, bindPort := port, networkId := 7
      passphrase := ascii "secret" }

end Cc2obp

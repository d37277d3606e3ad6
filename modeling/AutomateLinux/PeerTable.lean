import AutomateLinux.JsonValue
import Mathlib.Logic.Function.Basic

/-!
# The registered peers

The leader keeps a row for every peer that has registered and, in memory, the
application status each of them reported last.  The time stamp of a row is left
out: nothing below reads it.
-/

namespace AutomateLinux

structure PeerRecord where
  ip_address : String
  mac_address : String
  hostname : String
  is_online : Bool
  daemon_version : Int

structure PeerRegistry where
  peer_registry : String → Option PeerRecord
  peerAppStatusCache : String → Option Json

def PeerRegistry.empty : PeerRegistry := ⟨fun _ => none, fun _ => none⟩

namespace PeerTable

def upsertPeer (peer_id ip mac hostname : String) (is_online : Bool)
    (daemon_version : Int) (r : PeerRegistry) : PeerRegistry :=
  { r with
    peer_registry := Function.update r.peer_registry peer_id
      (some ⟨ip, mac, hostname, is_online, daemon_version⟩) }

/-- An `UPDATE … WHERE peer_id = ?`: no row, no effect. -/
def updateRow (peer_id : String) (f : PeerRecord → PeerRecord)
    (r : PeerRegistry) : PeerRegistry :=
  { r with
    peer_registry := Function.update r.peer_registry peer_id
      ((r.peer_registry peer_id).map f) }

def updateOnlineStatus (peer_id : String) (is_online : Bool) :
    PeerRegistry → PeerRegistry :=
  updateRow peer_id fun row => { row with is_online }

/-- `touchLastSeen`, with or without a reported version. -/
def touchLastSeen (peer_id : String) (daemon_version : Option Int) :
    PeerRegistry → PeerRegistry :=
  updateRow peer_id fun row =>
    { row with
      is_online := true
      daemon_version := daemon_version.getD row.daemon_version }

end PeerTable

namespace AppManager

def updatePeerAppStatus (peer_id : String) (appStatus : Json)
    (r : PeerRegistry) : PeerRegistry :=
  { r with
    peerAppStatusCache :=
      Function.update r.peerAppStatusCache peer_id (some appStatus) }

def clearPeerAppStatus (peer_id : String) (r : PeerRegistry) : PeerRegistry :=
  { r with
    peerAppStatusCache := Function.update r.peerAppStatusCache peer_id none }

end AppManager

end AutomateLinux

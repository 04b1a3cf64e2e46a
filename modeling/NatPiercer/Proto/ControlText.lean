/-
# `Proto.ControlText` — the words of the control protocol

`src/proto/control_text.rs`.  Every word is a token, so a message written
from them splits back into them.
-/
import NatPiercer.Lib.Text

namespace NatPiercer.Proto

open Text

def msgWelcome : Token := ⟨"WELCOME".toList, by decide⟩

def msgConnect : Token := ⟨"CONNECT".toList, by decide⟩
def msgDisconnect : Token := ⟨"DISCONNECT".toList, by decide⟩
def msgHb : Token := ⟨"HB".toList, by decide⟩
def msgNatProbe : Token := ⟨"NAT_PROBE".toList, by decide⟩
def msgNatSeen : Token := ⟨"NAT_SEEN".toList, by decide⟩
def msgPeerTimeout : Token := ⟨"PEER_TIMEOUT".toList, by decide⟩
def msgRequestRelay : Token := ⟨"REQUEST_RELAY".toList, by decide⟩
def msgData : Token := ⟨"DATA".toList, by decide⟩

def natTypeSymmetric : Token := ⟨"SYMMETRIC".toList, by decide⟩
def natTypeCone : Token := ⟨"CONE".toList, by decide⟩
def natTypePublic : Token := ⟨"PUBLIC".toList, by decide⟩
def natTypeUnknown : Token := ⟨"UNKNOWN".toList, by decide⟩

def msgMode : Token := ⟨"MODE".toList, by decide⟩
def msgRelay : Token := ⟨"RELAY".toList, by decide⟩
def msgDirect : Token := ⟨"DIRECT".toList, by decide⟩
def msgServerRelay : Token := ⟨"SERVER_RELAY".toList, by decide⟩

def msgUserLeft : Token := ⟨"USER_LEFT".toList, by decide⟩
def msgPing : Token := ⟨"PING".toList, by decide⟩
def msgPong : Token := ⟨"PONG".toList, by decide⟩
def msgHolePunch : Token := ⟨"HOLE_PUNCH".toList, by decide⟩

end NatPiercer.Proto

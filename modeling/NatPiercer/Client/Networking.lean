/-
# `Client.Networking` — a line that is typed

`handle_user_message` and the body of `user_input_loop` of
`src/client/networking.rs`.
-/
import NatPiercer.Client.Handlers

namespace NatPiercer.Client

open Text Utf8 Net Proto Signaling

/-- `DATA <user> <message>` -/
def dataLine (user message : Str) : Str := dataPrefix ++ user ++ ' ' :: message

/-- Through the server alone, or else to the peers that are reached without it,
and, from a relay that mirrors, to the server too. -/
def handleUserMessage (server : SocketAddr) (message : Str) (me : Client) : List Datagram :=
  let payload := dataLine me.user message ++ ['\n']
  if me.sendViaServer then [tell server payload]
  else
    (me.peers.filter fun p => !p.useServerRelay).map (fun peer => tell peer.addr payload) ++
      if me.isRelay && me.channelHasServerRelays then [tell server payload] else []

/-- What is typed is trimmed; a blank line is not sent. -/
def userInput (server : SocketAddr) (typed : Str) (me : Client) : List Datagram :=
  if trim typed = [] then [] else me.handleUserMessage server (trim typed)

end NatPiercer.Client

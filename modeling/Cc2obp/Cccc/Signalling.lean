import Cc2obp.Lib.Bytes
import Cc2obp.Lib.CString

/-!
# CC-CC messages

Builders and parsers of the Question, the Answer, the B-on and B-off lines and
the two datagrams of the voice port. The `snprintf` buffers are wide enough for
every configured field, so what is built is what is sent.
-/
namespace Cc2obp

open CString

def ccccQuestionNfields : Nat := 8
def ccccAnswerNfields : Nat := 7
def ccccConntypeServerInbound : List Byte := ascii "Server Inbound"
def ccccCodecAmbe : List Byte := ascii "AMBE"
def ccccMsPerFrame : Int := 60
def ccccRtpVpxcc : Byte := 0x80
def ccccRtpPtVoice : Byte := 94
def ccccRtpMarkerBit : Byte := 0x80
def ccccRtpPtKeepalive : Byte := 127
def ccccRtpHdrLen : Nat := 12
def ccccRtpPktLen : Nat := 33
def ccccKeepaliveLen : Nat := 16
def ccccKeepalivePayload : BitVec 32 := 0x00000064

def newline : List Byte := [0x0A]
def space : List Byte := [0x20]

def buildQuestion (syncSource : BitVec 32) (lid : Int)
    (channel sitename mac coderev os : List Byte) : List Byte :=
  fmtNat 16 syncSource.toNat ++ newline ++ fmtInt lid ++ space ++ newline ++ channel ++ newline ++
    sitename ++ newline ++ ccccConntypeServerInbound ++ newline ++ mac ++ newline ++ coderev ++
    newline ++ os ++ newline

/-- The wall clock comes in as seconds and microseconds. -/
def buildAnswer (wallSec wallUsec : Int) (sitename os version : List Byte) : List Byte :=
  ccccCodecAmbe ++ newline ++ fmtInt ccccMsPerFrame ++ newline ++ fmtInt wallSec ++ space ++
    fmtInt wallUsec ++ newline ++ version ++ newline ++ sitename ++ newline ++ ascii "0" ++ newline ++
    os ++ newline

def buildBon (lid user : Int) (radio peer : BitVec 32) (srcLid tgid : Int) (callType : Byte) :
    List Byte :=
  ascii "B01" ++ fmtPadded 2 lid ++ fmtPadded 3 user ++ space ++ fmtNat 10 radio.toNat ++ space ++
    fmtNat 10 peer.toNat ++ ascii " 0.0 radioid=" ++ fmtNat 10 radio.toNat ++ ascii " peerid=" ++
    fmtNat 10 peer.toNat ++ ascii " Bee=B01" ++ fmtPadded 2 srcLid ++ fmtPadded 3 tgid ++
    [callType] ++ newline

/-- The RSSI is a whole number at every caller. -/
def buildBoff (lid lost total rssi : Int) : List Byte :=
  ascii "B" ++ fmtPadded 2 lid ++ ascii "00000  LOSS=" ++ fmtInt lost ++ ascii "/" ++ fmtInt total ++
    ascii " RSSI=" ++ fmtInt rssi ++ newline

structure BonFields where
  radio : BitVec 32
  peer : BitVec 32
  srcLid : Int
  tgid : Int
  callType : Byte
deriving DecidableEq

/-- Trailing line ends and blanks removed. -/
def trimTail (p : List Byte) : List Byte :=
  (p.reverse.dropWhile fun c => c == 0x0D || c == 0x0A || c == 0x20).reverse

/-- The fields after `Bee=`: `B01`, two digits of source LID, the TGID, the call type. -/
def parseBee (radio peer : BitVec 32) (bee : List Byte) : Option BonFields :=
  if !(ascii "B01").isPrefixOf bee then none
  else
    let p := trimTail (bee.drop 3)
    if p.length < 3 then none
    else
      some
        { radio, peer, srcLid := atoi (p.take 2)
          tgid := atoi ((p.drop 2).take (min (p.length - 3) 15))
          callType := p.getLastD 0 }

def parseBon (line : List Byte) : Option BonFields := do
  let bee ← strstr (ascii "Bee=") line
  let (_, rest) ← scanWord 63 line
  let (tok1, rest) ← scanWord 31 rest
  let (tok2, _) ← scanWord 31 rest
  parseBee (strtoul32 10 tok1) (strtoul32 10 tok2) (bee.drop 4)

/-- `LOSS=<lost>/<total>`. -/
def parseBoff (line : List Byte) : Option (Int × Int) := do
  let loss ← strstr (ascii "LOSS=") line
  let (lost, rest) ← scanInt (loss.drop 5)
  match rest with
  | 0x2F :: rest =>
    let (total, _) ← scanInt rest
    pure (lost, total)
  | _ => none

def buildKeepalive (ssrc : BitVec 32) : List Byte :=
  [ccccRtpVpxcc, ccccRtpPtKeepalive] ++ wr16 0 ++ wr32 0 ++ wr32 ssrc ++ wr32 ccccKeepalivePayload

def buildVoice (seq : BitVec 16) (timestamp ssrc : BitVec 32) (marker : Bool) (ambe21 : Bytes 21) :
    List Byte :=
  [ccccRtpVpxcc, ccccRtpPtVoice ||| (if marker then ccccRtpMarkerBit else 0)] ++ wr16 seq ++
    wr32 timestamp ++ wr32 ssrc ++ ambe21.toList

end Cc2obp

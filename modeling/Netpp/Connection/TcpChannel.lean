import Netpp.Buffer.Fifo
import Netpp.Socket.SocketIO

/-!
# The channel of a connection

A `TcpChannel` has two byte arrays: `writer()` appends to `m_writeArray` and
`reader()` takes from `m_readArray`. The connection gets at them through
`TcpChannelConversion`, which gives it one of the arrays with a reader or a
writer of stretches around it.
-/

namespace Netpp

structure TcpChannel where
  writeArray : ByteArray
  readArray : ByteArray

/-- The member of the channel that a conversion holds a pointer to. -/
inductive ChannelArray where
  | writeArray
  | readArray
  deriving DecidableEq

/-- What a buffer conversion returns. -/
structure Converted where
  array : ChannelArray
  io : ByteArray2IOVec

namespace TcpChannel

def new : TcpChannel := ⟨ByteArray.new, ByteArray.new⟩

def get (c : TcpChannel) : ChannelArray → ByteArray
  | .writeArray => c.writeArray
  | .readArray => c.readArray

def set (c : TcpChannel) : ChannelArray → ByteArray → TcpChannel
  | .writeArray, b => { c with writeArray := b }
  | .readArray, b => { c with readArray := b }

/-- `writer().writeRaw(data)`; a write that needs more memory than there is fails. -/
def write (c : TcpChannel) (data : List UInt8) : Except Fault TcpChannel :=
  if ByteArray.memoryLimit ≤ c.writeArray.readableBytes + data.length then .error .badAlloc
  else (c.writeArray.writeRaw data).map fun b => { c with writeArray := b }

/-- `reader().retrieveRaw(length)`: the channel and the bytes stored, or
`nullopt`. -/
def retrieve (c : TcpChannel) (length : Nat) :
    Except Fault (TcpChannel × Option (List UInt8)) :=
  if length ≤ c.readArray.readableBytes then
    (c.readArray.retrieveRaw length).map fun r => ({ c with readArray := r.1 }, some r.2.2)
  else .ok (c, none)

end TcpChannel

namespace TcpChannelConversion

def readBufferConvert : Converted := ⟨.readArray, .reader⟩

def writeBufferConvert : Converted := ⟨.writeArray, .reader⟩

end TcpChannelConversion

end Netpp

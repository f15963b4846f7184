import Lifecycle.Script

/-!
# Queries in a row

A number of queries for one group and version, each of them made when the one
before it was answered.
-/

namespace Lifecycle.Discovery

/-- Asks a scripted server `n` times; the trace holds the requests and the answers. -/
def ask {C T : Type} (server : List Script.ServerRule) (gv : GroupVersion) :
    Nat → Nat → Trace C T → List (Except Fault Bool) × Trace C T
  | 0, _, t => ([], t)
  | n + 1, now, t =>
    match unaskable? gv with
    | some f =>
      let (answers, t) := ask server gv n now t
      (.error f :: answers, t)
    | none =>
      let reply := Script.reply server t gv
      let later := now + reply.delay
      let t := ⟨later, none, .answered gv none (reply.check gv).finding⟩ ::
        ⟨now, none, .probed gv none⟩ :: t
      let (answers, t) := ask server gv n later t
      (reply.response.ready gv :: answers, t)

end Lifecycle.Discovery

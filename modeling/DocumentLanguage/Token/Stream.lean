import DocumentLanguage.Token.Scan

/-!
Tokens handed over through a bounded queue by a scanner that runs ahead of its consumer. A
capacity of zero lets nothing wait: a token then passes only when the consumer asks for it.
-/
namespace DocumentLanguage

/-- The default number of tokens a scanner may run ahead. -/
def defaultQueueCapacity : Nat := 64

/-- A scanner, its queue and its consumer at one moment. -/
structure TokenStream where
  capacity : Nat
  /-- What the scanner has still to hand over. -/
  unsent : List Token
  /-- What waits, the oldest first. -/
  queue : List Token
  /-- What the consumer has got so far. -/
  received : List Token
  /-- Whether the consumer has gone away. -/
  hungUp : Bool
deriving DecidableEq, Repr

namespace TokenStream

def start (capacity : Nat) (tokens : List Token) : TokenStream :=
  ⟨capacity, tokens, [], [], false⟩

/-- The scanner puts its next token in the queue, if there is room. Once the consumer is gone
the attempt makes the scanner stop. -/
def send? (stream : TokenStream) : Option TokenStream :=
  match stream.unsent with
  | [] => none
  | token :: unsent =>
    if stream.hungUp then some { stream with unsent := [] }
    else if stream.queue.length < stream.capacity then
      some { stream with unsent := unsent, queue := stream.queue ++ [token] }
    else none

/-- The consumer takes the oldest waiting token, or the scanner's next one where none can
wait. -/
def receive? (stream : TokenStream) : Option TokenStream :=
  if stream.hungUp then none
  else match stream.queue with
    | token :: queue =>
      some { stream with queue := queue, received := stream.received ++ [token] }
    | [] =>
      match stream.capacity, stream.unsent with
      | 0, token :: unsent =>
        some { stream with unsent := unsent, received := stream.received ++ [token] }
      | _, _ => none

/-- The consumer goes away, and what waits for it is lost. -/
def hangUp (stream : TokenStream) : TokenStream :=
  { stream with queue := [], hungUp := true }

/-- Whether the consumer is told that no token will come. -/
def ended (stream : TokenStream) : Bool :=
  stream.queue.isEmpty && stream.unsent.isEmpty

/-- One move of either side. -/
inductive Step : TokenStream → TokenStream → Prop
  | send {before after : TokenStream} (move : before.send? = some after) : Step before after
  | receive {before after : TokenStream} (move : before.receive? = some after) :
      Step before after
  | hangUp {stream : TokenStream} (present : stream.hungUp = false) :
      Step stream stream.hangUp

/-- What the consumer has when no move is left, the scanner moving first whenever it can. The
bound counts moves. -/
def drain : Nat → TokenStream → List Token
  | 0, stream => stream.received
  | bound + 1, stream =>
    match stream.send? with
    | some next => drain bound next
    | none =>
      match stream.receive? with
      | some next => drain bound next
      | none => stream.received

def tokens (capacity : Nat) (source : String) : List Token :=
  let scanned := scan source
  drain (2 * scanned.length) (start capacity scanned)

end TokenStream

end DocumentLanguage

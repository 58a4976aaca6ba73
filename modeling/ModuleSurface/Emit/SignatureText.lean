import ModuleSurface.Module
import ModuleSurface.Signature.Parse

/-!
# SignatureText — what follows the name of a function in emitted text

A signature that can be read is written in its canonical form.  One that cannot is passed on as it
is, and the log is told.  Without any signature the function is one that accepts everything.
-/

namespace ModuleSurface

/-- The signature of a function about which nothing is known. -/
def unknownSignature : String :=
  "(*args, **kwargs)"

/-- What follows the name of a function. -/
def Symbol.signatureText (symbol : Symbol) : Logged String :=
  if symbol.hasSig then
    match Signature.parse symbol.sig with
    | .ok signature => pure signature.render
    | .error fault => do
        Logged.tell (.signatureKept symbol.name symbol.sig fault.message)
        return symbol.sig
  else pure unknownSignature

end ModuleSurface

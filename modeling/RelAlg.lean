import RelAlg.Main
import RelAlg.Proofs.Algebra.Projection
import RelAlg.Proofs.Algebra.Validation
import RelAlg.Proofs.CommandLine.Emit
import RelAlg.Proofs.Decode.Respelling
import RelAlg.Proofs.Emit.Faithful
import RelAlg.Proofs.Emit.Tables
import RelAlg.Proofs.Listing
import RelAlg.Proofs.Registry.Building
import RelAlg.Proofs.Sexp.Equality
import RelAlg.Proofs.Sexp.Faithful
import RelAlg.Proofs.Sexp.Json
import RelAlg.Proofs.Sexp.Layout
import RelAlg.Proofs.Sexp.Locality
import RelAlg.Proofs.Sexp.Nesting
import RelAlg.Proofs.Sexp.SignedZeros

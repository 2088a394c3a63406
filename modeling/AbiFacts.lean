import AbiFacts.Main
import AbiFacts.Json.Decode
import AbiFacts.Profile.Edit
import AbiFacts.Registers
import AbiFacts.Proofs.Text.Spelling
import AbiFacts.Proofs.Lookup.KeyOrder
import AbiFacts.Proofs.Lookup.Spellings
import AbiFacts.Proofs.Toml.Documents
import AbiFacts.Proofs.Decode.Expectations
import AbiFacts.Proofs.Decode.Profiles
import AbiFacts.Proofs.Decode.Snapshots
import AbiFacts.Proofs.Decode.Strictness
import AbiFacts.Proofs.Decode.Drafts
import AbiFacts.Proofs.Decode.LooseSnapshots
import AbiFacts.Proofs.Decode.Refusals
import AbiFacts.Proofs.Decode.RepeatedPins
import AbiFacts.Proofs.Decode.ExactNames
import AbiFacts.Proofs.Json.RoundTrip
import AbiFacts.Proofs.Json.Respelling
import AbiFacts.Proofs.CommandLine.Creating
import AbiFacts.Proofs.CommandLine.Runs
import AbiFacts.Proofs.CommandLine.Checking
import AbiFacts.Proofs.CommandLine.Failing
import AbiFacts.Proofs.CommandLine.Discovering
import AbiFacts.Proofs.CommandLine.Names
import AbiFacts.Proofs.CommandLine.Listing
import AbiFacts.Proofs.Profile.Validation
import AbiFacts.Proofs.Profile.Edits
import AbiFacts.Proofs.Profile.CanonicalPins
import AbiFacts.Proofs.Profile.Drift
import AbiFacts.Proofs.Profile.Listings
import AbiFacts.Proofs.Registers

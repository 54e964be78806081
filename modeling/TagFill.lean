import TagFill.Proofs.Accounting
import TagFill.Proofs.AddressText
import TagFill.Proofs.Bounds
import TagFill.Proofs.CharsetText
import TagFill.Proofs.Interior
import TagFill.Proofs.Isolation
import TagFill.Proofs.LengthBounds
import TagFill.Proofs.Lossless
import TagFill.Proofs.NameCase
import TagFill.Proofs.OutputEncoding
import TagFill.Proofs.Overriding
import TagFill.Proofs.Reachable
import TagFill.Proofs.Refusal
import TagFill.Proofs.Rewriting
import TagFill.Proofs.Room
import TagFill.Proofs.Sharing
import TagFill.Proofs.SoundSessions
import TagFill.Proofs.UuidText
import TagFill.Text.Quoted

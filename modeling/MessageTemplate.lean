import MessageTemplate.Interchange.Binding
import MessageTemplate.Message.Equality
import MessageTemplate.Message.Reading
import MessageTemplate.Message.Rendering
import MessageTemplate.Plural.Forms
import MessageTemplate.Proofs.Message.Formatting
import MessageTemplate.Proofs.Message.RoundTrip
import MessageTemplate.Proofs.Placeholder.Extraction
import MessageTemplate.Proofs.Message.Acceptance
import MessageTemplate.Proofs.Message.Arity
import MessageTemplate.Proofs.Placeholder.Conservation
import MessageTemplate.Proofs.Placeholder.Sharing
import MessageTemplate.Proofs.Message.Loss
import MessageTemplate.Proofs.Token.Tiling
import MessageTemplate.Proofs.Placeholder.Likeness
import MessageTemplate.Proofs.Json.Lexeme
import MessageTemplate.Proofs.Json.Reading
import MessageTemplate.Proofs.Interchange.Encoding
import MessageTemplate.Proofs.Interchange.Decoding
import MessageTemplate.Proofs.Interchange.Exchange
import MessageTemplate.Proofs.Token.Braces
import MessageTemplate.Proofs.Token.Lookahead
import MessageTemplate.Proofs.Message.Spacing
import MessageTemplate.Proofs.Message.Composition
import MessageTemplate.Proofs.Plural.Building
import MessageTemplate.Proofs.Plural.Recovery
import MessageTemplate.Proofs.Placeholder.Table
import MessageTemplate.Proofs.Message.Viability
import MessageTemplate.Proofs.Placeholder.OnePass
import MessageTemplate.Proofs.Placeholder.Independence
import MessageTemplate.Proofs.Plural.Hint
import MessageTemplate.Proofs.Plural.Renaming
import MessageTemplate.Proofs.Message.Defects
import MessageTemplate.Proofs.Plural.Coverage
import MessageTemplate.Proofs.Text.Codec
import MessageTemplate.Proofs.Token.Stream
import MessageTemplate.Proofs.Message.Numeral

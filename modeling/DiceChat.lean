import DiceChat.History.Room
import DiceChat.Json.Reading
import DiceChat.Wire.Decode
import DiceChat.Main
import DiceChat.Proofs.Chat.Hydration
import DiceChat.Proofs.Expr.Leaning
import DiceChat.Proofs.History.Following
import DiceChat.Proofs.Wire.RoundTrip
import DiceChat.Proofs.Dice.Ranks
import DiceChat.Proofs.Dice.Totals
import DiceChat.Proofs.Dice.Crossing
import DiceChat.Proofs.Result.Drawing
import DiceChat.Proofs.Result.Guarded
import DiceChat.Proofs.Chat.Shares
import DiceChat.Proofs.Dice.Raising
import DiceChat.Proofs.Expr.Turns
import DiceChat.Proofs.Expr.Faults
import DiceChat.Proofs.Chat.Filling
import DiceChat.Proofs.Chat.Lines
import DiceChat.Proofs.Expr.TokenText
import DiceChat.Proofs.Expr.Determined
import DiceChat.Proofs.Expr.DiceText
import DiceChat.Proofs.Result.Tokens
import DiceChat.Proofs.Expr.Front
import DiceChat.Proofs.Dice.Range
import DiceChat.Proofs.Dice.Listing
import DiceChat.Proofs.Expr.Described
import DiceChat.Proofs.Wire.Members
import DiceChat.Proofs.CommandLine.Agreement

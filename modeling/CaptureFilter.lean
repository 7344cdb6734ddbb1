import CaptureFilter.Address
import CaptureFilter.Call
import CaptureFilter.Capture.Command
import CaptureFilter.Capture.Config
import CaptureFilter.Capture.Error
import CaptureFilter.Capture.Interface
import CaptureFilter.Capture.Path
import CaptureFilter.CommandLine.Arguments
import CaptureFilter.CommandLine.Run
import CaptureFilter.Connective
import CaptureFilter.Draft
import CaptureFilter.Json.Error
import CaptureFilter.Json.Numeral
import CaptureFilter.Json.Outline
import CaptureFilter.Json.Reading
import CaptureFilter.Json.Token
import CaptureFilter.Json.Value
import CaptureFilter.Log
import CaptureFilter.Main
import CaptureFilter.Number.Binary64
import CaptureFilter.Number.Shortest
import CaptureFilter.Port
import CaptureFilter.Primitive
import CaptureFilter.Qualifier
import CaptureFilter.Recipe.Field
import CaptureFilter.Recipe.Operation
import CaptureFilter.Recipe.Reading
import CaptureFilter.Recipe.Writing
import CaptureFilter.Rejection
import CaptureFilter.Shell
import CaptureFilter.Step
import CaptureFilter.Text.Blank
import CaptureFilter.Text.Digits
import CaptureFilter.Text.Quoted
import CaptureFilter.Text.Shown
import CaptureFilter.Proofs.Computations
import CaptureFilter.Proofs.Meaning
import CaptureFilter.Proofs.ShellLine
import CaptureFilter.Proofs.AddressText
import CaptureFilter.Proofs.Alphabet
import CaptureFilter.Proofs.Lexing
import CaptureFilter.Proofs.JsonTokens
import CaptureFilter.Proofs.JsonRoundTrip
import CaptureFilter.Proofs.RecipeRoundTrip
import CaptureFilter.Proofs.Failure
import CaptureFilter.Proofs.RecipeOfCalls
import CaptureFilter.Proofs.Arguments
import CaptureFilter.Proofs.Changes
import CaptureFilter.Proofs.PrintedCommand
import CaptureFilter.Proofs.CheckedCommand
import CaptureFilter.Proofs.Parentheses
import CaptureFilter.Proofs.Frame
import CaptureFilter.Proofs.PathComponents
import CaptureFilter.Proofs.OptionTable
import CaptureFilter.Proofs.JsonTexts
import CaptureFilter.Proofs.PortWords
import CaptureFilter.Proofs.PortForms
import CaptureFilter.Proofs.StepFields
import CaptureFilter.Proofs.StepMembers
import CaptureFilter.Proofs.StepLists
import CaptureFilter.Proofs.Verdict
import CaptureFilter.Proofs.AddressGrammar
import CaptureFilter.Proofs.JsonIndented
import CaptureFilter.Proofs.OutputForms
import CaptureFilter.Proofs.NormalForm
